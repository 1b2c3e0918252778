import VeloxRag.Lib.Fallible
import VeloxRag.Observability.Logging

/-!
# What a safe log record may hold

Each value that is kept is allowed under its key, at every depth, and a value that is allowed is kept
as it is: so the output is closed, and sanitizing it again changes nothing.  The sanitizer asks only
for allowed keys, so two records whose answers agree give the same output.

## Main definitions

* `Allowed` — the values that may stand under a key.
* `SafeText`, `Safe.HasText` — the texts that a record may hold.
* `Agree`, `RecordAgree` — records that answer alike.
* `sanitizeLogRecord_safe` — the output is closed, depends on the answers only, and is stable.
-/

namespace VeloxRag.Observability

open Lib Ingestion

variable {V W F : Type}

/-! ## Texts -/

/-- The texts that are written for every record. -/
def fixedTexts : List Str :=
  ["rag_service", "redacted", "worker", "service", "task", "redacted_log_event", "DEBUG", "INFO",
    "WARNING", "ERROR", "CRITICAL"].map String.toList

/-- A fixed or allowed text, a canonical UUID, or a request id. -/
def SafeText (s : Str) : Prop :=
  s ∈ fixedTexts ∨ s ∈ eventNames ∨ s ∈ errorCodes ∨ s ∈ builtinExceptionTypes ∨
    (∃ entry ∈ enumValues, s ∈ entry.2) ∨ (∃ n < 2 ^ 128, s = uuidText n) ∨ validRequestId s = true

namespace Safe

/-- A text occurs in a value, at any depth. -/
inductive HasText : Safe F → Str → Prop
  | str (s : Str) : HasText (.str s) s
  | tuple {names : List Str} {s : Str} (h : s ∈ names) : HasText (.tuple names) s
  | mapping {members : List (Str × Safe F)} {m : Str × Safe F} {s : Str} (hm : m ∈ members)
      (h : HasText m.2 s) : HasText (.mapping members) s

/-- A key occurs in a value, at any depth. -/
inductive HasKey : Safe F → Str → Prop
  | here {members : List (Str × Safe F)} {m : Str × Safe F} (hm : m ∈ members) :
      HasKey (.mapping members) m.1
  | deeper {members : List (Str × Safe F)} {m : Str × Safe F} {key : Str} (hm : m ∈ members)
      (h : HasKey m.2 key) : HasKey (.mapping members) key

/-- Mappings stand in each other so many times at most. -/
inductive Within : ℕ → Safe F → Prop
  | flat {levels : ℕ} {value : Safe F} (h : ∀ members, value ≠ .mapping members) : Within levels value
  | mapping {levels : ℕ} {members : List (Str × Safe F)} (h : ∀ m ∈ members, Within levels m.2) :
      Within (levels + 1) (.mapping members)

end Safe

/-! ## Allowed values -/

/-- The value may stand under the key of a mapping at this depth. -/
inductive Allowed (floats : PyFloat F) : ℕ → Str → Safe F → Prop
  | requestId {depth : ℕ} {key s : Str} (hrule : ruleOf key = .requestId)
      (h : validRequestId s = true) : Allowed floats depth key (.str s)
  | uuid {depth : ℕ} {key : Str} (hrule : ruleOf key = .uuid) (n : ℕ) (h : n < 2 ^ 128) :
      Allowed floats depth key (.str (uuidText n))
  | event {depth : ℕ} {key s : Str} (hrule : ruleOf key = .event)
      (h : s ∈ eventNames ∨ s = redactedLogEvent) : Allowed floats depth key (.str s)
  | errorCode {depth : ℕ} {key s : Str} (hrule : ruleOf key = .errorCode) (h : s ∈ errorCodes) :
      Allowed floats depth key (.str s)
  | exceptionType {depth : ℕ} {key s : Str} (hrule : ruleOf key = .exceptionType)
      (h : s ∈ builtinExceptionTypes) : Allowed floats depth key (.str s)
  | exceptionTypes {depth : ℕ} {key : Str} {names : List Str} (hrule : ruleOf key = .exceptionTypes)
      (hlength : names.length ≤ maxExceptionTypes) (h : ∀ s ∈ names, s ∈ builtinExceptionTypes) :
      Allowed floats depth key (.tuple names)
  | enum {depth : ℕ} {key s : Str} {allowed : List Str} (hrule : ruleOf key = .enum allowed)
      (h : s ∈ allowed) : Allowed floats depth key (.str s)
  | boolean {depth : ℕ} {key : Str} (hrule : ruleOf key = .boolean) (b : Bool) :
      Allowed floats depth key (.bool b)
  | integer {depth : ℕ} {key : Str} {n : ℤ} (hrule : ruleOf key = .integer)
      (h : 0 ≤ n ∧ n ≤ maxCounterValue) : Allowed floats depth key (.int n)
  | float {depth : ℕ} {key : Str} {x : F} (hrule : ruleOf key = .float)
      (h : floats.isFinite x ∧ floats.nonneg x) : Allowed floats depth key (.float x)
  | nested {depth : ℕ} {key : Str} {members : List (Str × Safe F)} (hrule : ruleOf key = .nested)
      (hdepth : depth + 1 ≤ maxSanitizeDepth) (hkeys : (members.map (·.1)).Sublist safeExtraKeys)
      (h : ∀ m ∈ members, Allowed floats (depth + 1) m.1 m.2) : Allowed floats depth key (.mapping members)

section Allowed

variable {floats : PyFloat F} {depth : ℕ} {key : Str} {value : Safe F}

theorem eq_of_ite {rule branch : Rule} {p : Prop} [Decidable p] {rest : Rule} (hne : branch ≠ rule)
    (h : (if p then branch else rest) = rule) : rest = rule := by
  by_cases hp : p
  · rw [if_pos hp] at h
    exact absurd h hne
  · rwa [if_neg hp] at h

/-- The values of an enumeration are those of its table. -/
theorem exists_of_ruleOf_enum {allowed : List Str} (h : ruleOf key = .enum allowed) :
    ∃ entry ∈ enumValues, allowed = entry.2 := by
  have hnodup : (enumValues.map (·.1)).Nodup := by decide +kernel
  rw [ruleOf] at h
  iterate 6 replace h := eq_of_ite Rule.noConfusion h
  cases hlookup : enumValues.lookup key with
  | none =>
      rw [hlookup] at h
      dsimp only at h
      iterate 4 replace h := eq_of_ite Rule.noConfusion h
      cases h
  | some found =>
      rw [hlookup] at h
      injection h with hfound
      exact ⟨(key, found), (Fallible.lookup_some_iff hnodup).mp hlookup, hfound.symm⟩

theorem Allowed.safeText (h : Allowed floats depth key value) {s : Str} (hs : value.HasText s) :
    SafeText s := by
  induction h with
  | requestId hrule h =>
      cases hs
      exact .inr (.inr (.inr (.inr (.inr (.inr h)))))
  | uuid hrule n h =>
      cases hs
      exact .inr (.inr (.inr (.inr (.inr (.inl ⟨n, h, rfl⟩)))))
  | event hrule h =>
      cases hs
      rcases h with h | rfl
      · exact .inr (.inl h)
      · exact .inl (by decide +kernel)
  | errorCode hrule h =>
      cases hs
      exact .inr (.inr (.inl h))
  | exceptionType hrule h =>
      cases hs
      exact .inr (.inr (.inr (.inl h)))
  | exceptionTypes hrule hlength h =>
      cases hs with
      | tuple hs => exact .inr (.inr (.inr (.inl (h _ hs))))
  | enum hrule h =>
      cases hs
      obtain ⟨entry, hentry, rfl⟩ := exists_of_ruleOf_enum hrule
      exact .inr (.inr (.inr (.inr (.inl ⟨entry, hentry, h⟩))))
  | boolean | integer | float => cases hs
  | nested hrule hdepth hkeys h ih =>
      cases hs with
      | mapping hm hs => exact ih _ hm hs

theorem Allowed.safeKey (h : Allowed floats depth key value) {k : Str} (hk : value.HasKey k) :
    k ∈ safeExtraKeys := by
  induction h with
  | nested hrule hdepth hkeys h ih =>
      cases hk with
      | here hm => exact hkeys.subset (List.mem_map_of_mem hm)
      | deeper hm hk => exact ih _ hm hk
  | _ => cases hk

theorem Allowed.within (h : Allowed floats depth key value) :
    value.Within (maxSanitizeDepth - depth) := by
  induction h with
  | @nested depth key members hrule hdepth hkeys h ih =>
      obtain ⟨levels, hlevels⟩ : ∃ levels, maxSanitizeDepth - depth = levels + 1 :=
        ⟨maxSanitizeDepth - (depth + 1), by omega⟩
      have hsame : maxSanitizeDepth - (depth + 1) = levels := by omega
      rw [hlevels]
      exact .mapping fun m hm => hsame ▸ ih m hm
  | _ => exact .flat fun members hmembers => by cases hmembers

end Allowed

/-! ## What is made is allowed -/

section Closed

variable {floats : PyFloat F} {heap : Heap V F}

/-- A text of the length of a UUID is the text of one. -/
theorem lt_of_length_uuidText {n : ℕ} (h : (uuidText n).length = 36) : n < 2 ^ 128 := by
  have hlength : (hexDigits n).length = 32 - (Nat.toDigits 16 n).length + (Nat.toDigits 16 n).length := by
    rw [hexDigits]
    simp only [List.length_append, List.length_replicate]
  simp only [uuidText, List.length_append, List.length_take, List.length_drop,
    List.length_singleton] at h
  have hle : (Nat.toDigits 16 n).length ≤ 32 := by omega
  rwa [Nat.length_toDigits_le_iff (by decide) (by decide)] at hle

theorem normalizedUuid_eq_some {value : View V F} {s : Str} (h : normalizedUuid value = some s) :
    ∃ n < 2 ^ 128, s = uuidText n := by
  cases value with
  | uuid n hn => exact ⟨n, hn, (Option.some.inj h).symm⟩
  | str text =>
      rw [normalizedUuid] at h
      split at h
      · cases h
      rename_i hlength
      obtain ⟨n, hn, rfl⟩ := Option.map_eq_some_iff.mp h
      rw [uuidOfText] at hn
      split at hn
      · rename_i htext
        cases hn
        rw [← htext, not_not] at hlength
        exact ⟨_, lt_of_length_uuidText hlength, htext.symm⟩
      · cases hn
  | _ => cases h

theorem sanitizeExceptionName_mem (value : View V F) :
    sanitizeExceptionName value ∈ builtinExceptionTypes := by
  have hexception : "Exception".toList ∈ builtinExceptionTypes := by decide +kernel
  cases value with
  | str s =>
      rw [sanitizeExceptionName]
      split
      · assumption
      · exact hexception
  | _ => exact hexception

theorem sanitizeExceptionNames_found {value : View V F} {safe : Safe F}
    (h : sanitizeExceptionNames heap value = .found safe) :
    ∃ names, safe = .tuple names ∧ names.length ≤ maxExceptionTypes ∧
      ∀ s ∈ names, s ∈ builtinExceptionTypes := by
  have hnames : ∀ items : List V, ∃ names,
      Safe.tuple (F := F) ((items.take maxExceptionTypes).map fun item =>
        sanitizeExceptionName (heap.look item)) = .tuple names ∧
      names.length ≤ maxExceptionTypes ∧ ∀ s ∈ names, s ∈ builtinExceptionTypes := by
    intro items
    refine ⟨_, rfl, ?_, ?_⟩
    · rw [List.length_map, List.length_take]
      exact min_le_left _ _
    · intro s hs
      obtain ⟨item, -, rfl⟩ := List.mem_map.mp hs
      exact sanitizeExceptionName_mem _
  cases value with
  | list items | tuple items =>
      cases h
      exact hnames items
  | other number members =>
      cases members with
      | found items =>
          cases h
          exact hnames items
      | _ => cases h
  | _ => cases h

theorem sanitizeFloat_found {value : View V F} {safe : Safe F}
    (h : sanitizeFloat floats value = .found safe) :
    ∃ x, safe = .float x ∧ floats.isFinite x ∧ floats.nonneg x := by
  have haccept : ∀ x, sanitizeFloat.accept floats x = .found safe →
      ∃ x, safe = .float x ∧ floats.isFinite x ∧ floats.nonneg x := by
    intro x hx
    rw [sanitizeFloat.accept] at hx
    split at hx
    · rename_i hvalid
      cases hx
      exact ⟨x, rfl, hvalid⟩
    · cases hx
  cases value with
  | int n =>
      rw [sanitizeFloat] at h
      split at h
      · cases h
      · exact haccept _ h
  | float x => exact haccept x h
  | other number members =>
      cases number with
      | found x => exact haccept x h
      | _ => cases h
  | _ => cases h

/-- A value that a rule keeps is allowed. -/
theorem sanitizeFlat_allowed {depth : ℕ} {key : Str} {value : View V F} {safe : Safe F}
    (h : sanitizeFlat floats heap (ruleOf key) value = .found safe) :
    Allowed floats depth key safe := by
  generalize hrule : ruleOf key = rule at h
  cases rule with
  | requestId =>
      cases value with
      | str s =>
          dsimp only [sanitizeFlat] at h
          split at h
          · cases h
            exact .requestId hrule ‹_›
          · cases h
      | _ => cases h
  | uuid =>
      dsimp only [sanitizeFlat] at h
      cases huuid : normalizedUuid value with
      | none =>
          rw [huuid] at h
          cases h
      | some s =>
          rw [huuid] at h
          obtain ⟨n, hn, rfl⟩ := normalizedUuid_eq_some huuid
          cases h
          exact .uuid hrule n hn
  | event =>
      refine ?_
      cases value with
      | str s =>
          cases h
          by_cases hs : s ∈ eventNames
          · rw [if_pos hs]
            exact .event hrule (.inl hs)
          · rw [if_neg hs]
            exact .event hrule (.inr rfl)
      | _ =>
          cases h
          exact .event hrule (.inr rfl)
  | errorCode =>
      have hother : "OTHER".toList ∈ errorCodes := by decide +kernel
      cases value with
      | str s =>
          cases h
          by_cases hs : s ∈ errorCodes
          · rw [if_pos hs]
            exact .errorCode hrule hs
          · rw [if_neg hs]
            exact .errorCode hrule hother
      | _ =>
          cases h
          exact .errorCode hrule hother
  | exceptionType =>
      cases h
      exact .exceptionType hrule (sanitizeExceptionName_mem value)
  | exceptionTypes =>
      obtain ⟨names, rfl, hlength, hnames⟩ := sanitizeExceptionNames_found h
      exact .exceptionTypes hrule hlength hnames
  | enum allowed =>
      cases value with
      | str s =>
          dsimp only [sanitizeFlat] at h
          split at h
          · cases h
            exact .enum hrule ‹_›
          · cases h
      | _ => cases h
  | boolean =>
      cases value with
      | bool b =>
          cases h
          exact .boolean hrule b
      | _ => cases h
  | integer =>
      cases value with
      | int n =>
          dsimp only [sanitizeFlat] at h
          split at h
          · cases h
            exact .integer hrule ‹_›
          · cases h
      | _ => cases h
  | float =>
      obtain ⟨x, rfl, hx⟩ := sanitizeFloat_found h
      exact .float hrule hx
  | nested | drop => cases h

/-- What the loop over the keys keeps. -/
theorem sanitizeKeys_eq_some {member : Str → V → Lookup (Safe F)} {get : Str → Lookup V}
    {keys : List Str} {members : List (Str × Safe F)}
    (h : sanitizeKeys member get keys = some members) :
    (members.map (·.1)).Sublist keys ∧
      ∀ m ∈ members, ∃ value, member m.1 value = .found m.2 := by
  induction keys generalizing members with
  | nil =>
      cases h
      exact ⟨List.Sublist.refl _, by simp⟩
  | cons key keys ih =>
      rw [sanitizeKeys] at h
      split at h
      · cases h
      · obtain ⟨hkeys, hmembers⟩ := ih h
        exact ⟨hkeys.cons key, hmembers⟩
      · split at h
        · cases h
        · obtain ⟨hkeys, hmembers⟩ := ih h
          exact ⟨hkeys.cons key, hmembers⟩
        · rename_i safe hsafe
          obtain ⟨rest, hrest, rfl⟩ := Option.map_eq_some_iff.mp h
          obtain ⟨hkeys, hmembers⟩ := ih hrest
          rw [List.map_cons, List.forall_mem_cons]
          exact ⟨hkeys.cons_cons key, ⟨_, hsafe⟩, hmembers⟩

/-- **What is made of a value is allowed.**  The induction is on the levels that are left. -/
theorem sanitizeMember_allowed (levels : ℕ) {depth : ℕ} (hlevels : maxSanitizeDepth < depth + levels)
    {key : Str} {value : V} {safe : Safe F}
    (h : sanitizeMember floats heap key value depth = .found safe) : Allowed floats depth key safe := by
  induction levels generalizing depth key value safe with
  | zero =>
      rw [sanitizeMember, if_pos (by omega)] at h
      cases h
  | succ levels ih =>
      rw [sanitizeMember] at h
      split at h
      · cases h
      split at h
      · rename_i hrule
        rw [sanitizeMapping] at h
        split at h
        · split at h
          · cases h
          rename_i hdepth
          split at h
          · cases h
          · rename_i members hmembers
            cases h
            obtain ⟨hkeys, hfound⟩ := sanitizeKeys_eq_some hmembers
            refine .nested hrule (not_lt.mp hdepth) hkeys fun m hm => ?_
            obtain ⟨value, hvalue⟩ := hfound m hm
            exact ih (by omega) hvalue
        · cases h
      · exact sanitizeFlat_allowed h

end Closed

/-! ## What is allowed is kept -/

section Stable

variable {floats : PyFloat F}

/-- What the sanitizer sees of its own output. -/
def Safe.look : Safe F → View (Safe F) F
  | .null => .none
  | .str s => .str s
  | .bool b => .bool b
  | .int n => .int n
  | .float x => .float x
  | .tuple names => .tuple (names.map .str)
  | .mapping members => .mapping fun key =>
      match members.lookup key with
      | some value => .found value
      | none => .missing

/-- The output as objects; no exceptions are among them. -/
def Safe.heap : Heap (Safe F) F where
  look := Safe.look
  identity := fun _ => 0
  isException := fun _ => some false
  builtinType := fun _ => none
  exceptionChildren := fun _ => some []

theorem sanitizeExceptionNames_tuple {names : List Str} (hlength : names.length ≤ maxExceptionTypes)
    (h : ∀ s ∈ names, s ∈ builtinExceptionTypes) :
    sanitizeExceptionNames Safe.heap (Safe.look (F := F) (.tuple names)) = .found (.tuple names) := by
  have hnames : names.map (fun s => sanitizeExceptionName (Safe.look (F := F) (.str s))) = names := by
    conv_rhs => rw [← List.map_id names]
    refine List.map_congr_left fun s hs => ?_
    exact if_pos (h s hs)
  rw [Safe.look, sanitizeExceptionNames, List.take_of_length_le (by rwa [List.length_map]),
    List.map_map]
  exact congrArg (fun names => Lookup.found (Safe.tuple names)) hnames

/-- The loop over the keys of a mapping whose members are kept. -/
theorem sanitizeKeys_of_found {member : Str → Safe F → Lookup (Safe F)} {entries : List (Str × Safe F)}
    {get : Str → Lookup (Safe F)} {keys : List Str}
    (hget : ∀ key ∈ keys, get key = match entries.lookup key with
      | some value => .found value
      | none => .missing)
    (h : ∀ key ∈ keys, ∀ value, entries.lookup key = some value → member key value = .found value) :
    sanitizeKeys member get keys = some (Entries.select keys entries) := by
  induction keys with
  | nil => rfl
  | cons key keys ih =>
      rw [List.forall_mem_cons] at hget h
      have hrest := ih hget.2 h.2
      rw [sanitizeKeys, hget.1, Entries.select, List.filterMap_cons]
      rw [Entries.select] at hrest
      cases hlookup : entries.lookup key with
      | none => exact hrest
      | some value =>
          dsimp only [Option.map_some]
          rw [h.1 value hlookup]
          dsimp only
          rw [hrest, Option.map_some]

/-- **An allowed value is kept as it is.** -/
theorem Allowed.sanitizeMember_eq {depth : ℕ} (hdepth : depth ≤ maxSanitizeDepth) {key : Str}
    {value : Safe F} (h : Allowed floats depth key value) :
    sanitizeMember floats Safe.heap key value depth = .found value := by
  induction h with
  | requestId hrule h =>
      rw [sanitizeMember, if_neg (not_lt.mpr hdepth), hrule, if_neg Rule.noConfusion]
      exact if_pos h
  | uuid hrule n h =>
      rw [sanitizeMember, if_neg (not_lt.mpr hdepth), hrule, if_neg Rule.noConfusion, sanitizeFlat]
      change Lookup.ofText (normalizedUuid (View.str (uuidText n))) = _
      rw [normalizedUuid, length_uuidText h, if_neg (not_not.mpr rfl), uuidOfText_uuidText]
      rfl
  | @event depth key s hrule h =>
      have hs : (if s ∈ eventNames then s else redactedLogEvent) = s := by
        rcases h with h | rfl
        · exact if_pos h
        · exact ite_self _
      rw [sanitizeMember, if_neg (not_lt.mpr hdepth), hrule, if_neg Rule.noConfusion]
      exact congrArg (fun s => Lookup.found (Safe.str s)) hs
  | errorCode hrule h =>
      rw [sanitizeMember, if_neg (not_lt.mpr hdepth), hrule, if_neg Rule.noConfusion]
      exact congrArg (fun s => Lookup.found (Safe.str s)) (if_pos h)
  | exceptionType hrule h =>
      rw [sanitizeMember, if_neg (not_lt.mpr hdepth), hrule, if_neg Rule.noConfusion]
      exact congrArg (fun s => Lookup.found (Safe.str s)) (if_pos h)
  | exceptionTypes hrule hlength h =>
      rw [sanitizeMember, if_neg (not_lt.mpr hdepth), hrule, if_neg Rule.noConfusion]
      exact sanitizeExceptionNames_tuple hlength h
  | enum hrule h =>
      rw [sanitizeMember, if_neg (not_lt.mpr hdepth), hrule, if_neg Rule.noConfusion]
      exact if_pos h
  | boolean hrule b =>
      rw [sanitizeMember, if_neg (not_lt.mpr hdepth), hrule, if_neg Rule.noConfusion]
      rfl
  | integer hrule h =>
      rw [sanitizeMember, if_neg (not_lt.mpr hdepth), hrule, if_neg Rule.noConfusion]
      exact if_pos h
  | float hrule h =>
      rw [sanitizeMember, if_neg (not_lt.mpr hdepth), hrule, if_neg Rule.noConfusion]
      exact if_pos h
  | @nested depth key members hrule hbelow hkeys h ih =>
      have hnodup := hkeys.nodup nodup_safeExtraKeys
      have hmembers : sanitizeKeys (fun key member => sanitizeMember floats Safe.heap key member (depth + 1))
          (fun key => match members.lookup key with
            | some value => .found value
            | none => .missing) safeExtraKeys = some members := by
        rw [sanitizeKeys_of_found (fun _ _ => rfl) fun key _ value hlookup =>
            ih (key, value) ((Fallible.lookup_some_iff hnodup).mp hlookup) hbelow,
          Entries.select_of_sublist nodup_safeExtraKeys hkeys]
      rw [sanitizeMember, if_neg (not_lt.mpr hdepth), if_pos hrule, sanitizeMapping]
      change (if maxSanitizeDepth < depth + 1 then Lookup.missing else _) = _
      rw [if_neg (not_lt.mpr hbelow), hmembers]

end Stable

/-! ## Objects that answer alike -/

section Agreement

variable {heap : Heap V F} {heap' : Heap W F}

inductive LookupAgree {α β : Type} (R : α → β → Prop) : Lookup α → Lookup β → Prop
  | raises : LookupAgree R .raises .raises
  | missing : LookupAgree R .missing .missing
  | found {a : α} {b : β} (h : R a b) : LookupAgree R (.found a) (.found b)

/-- Two objects look alike, up to what they refer to; of dictionaries only the allowed keys count. -/
inductive ViewAgree (R : V → W → Prop) : View V F → View W F → Prop
  | none : ViewAgree R .none .none
  | str (s : Str) : ViewAgree R (.str s) (.str s)
  | uuid (n : ℕ) (h : n < 2 ^ 128) : ViewAgree R (.uuid n h) (.uuid n h)
  | bool (b : Bool) : ViewAgree R (.bool b) (.bool b)
  | int (n : ℤ) : ViewAgree R (.int n) (.int n)
  | float (x : F) : ViewAgree R (.float x) (.float x)
  | list {items : List V} {items' : List W} (h : List.Forall₂ R items items') :
      ViewAgree R (.list items) (.list items')
  | tuple {items : List V} {items' : List W} (h : List.Forall₂ R items items') :
      ViewAgree R (.tuple items) (.tuple items')
  | mapping {get : Str → Lookup V} {get' : Str → Lookup W}
      (h : ∀ key ∈ safeExtraKeys, LookupAgree R (get key) (get' key)) :
      ViewAgree R (.mapping get) (.mapping get')
  | other {number : Lookup F} {members : Lookup (List V)} {members' : Lookup (List W)}
      (h : LookupAgree (List.Forall₂ R) members members') :
      ViewAgree R (.other number members) (.other number members')

/-- The objects answer alike, however far the sanitizer follows them. -/
def Agree (heap : Heap V F) (heap' : Heap W F) (value : V) (value' : W) : Prop :=
  ∃ R : V → W → Prop, (∀ v w, R v w → ViewAgree R (heap.look v) (heap'.look w)) ∧ R value value'

variable {floats : PyFloat F} {R : V → W → Prop}

theorem sanitizeExceptionName_agree {view : View V F} {view' : View W F} (h : ViewAgree R view view') :
    sanitizeExceptionName view = sanitizeExceptionName view' := by
  cases h <;> rfl

theorem sanitizeFlat_agree (hR : ∀ v w, R v w → ViewAgree R (heap.look v) (heap'.look w))
    {view : View V F} {view' : View W F} (h : ViewAgree R view view') (rule : Rule) :
    sanitizeFlat floats heap rule view = sanitizeFlat floats heap' rule view' := by
  have hnames : ∀ {items : List V} {items' : List W}, List.Forall₂ R items items' →
      (items.take maxExceptionTypes).map (fun item => sanitizeExceptionName (heap.look item)) =
        (items'.take maxExceptionTypes).map fun item => sanitizeExceptionName (heap'.look item) := by
    intro items items' hitems
    rw [List.map_take, List.map_take]
    exact congrArg _ (Fallible.map_eq_of_forall₂ hitems fun v w hvw =>
      sanitizeExceptionName_agree (hR v w hvw))
  cases h with
  | list h | tuple h =>
      cases rule <;> try rfl
      exact congrArg (fun names => Lookup.found (Safe.tuple names)) (hnames h)
  | @other number members members' h =>
      cases rule <;> try rfl
      · cases h with
        | found h => exact congrArg (fun names => Lookup.found (Safe.tuple names)) (hnames h)
        | _ => rfl
      · cases number <;> rfl
  | _ => cases rule <;> rfl

theorem sanitizeKeys_agree {member : Str → V → Lookup (Safe F)} {member' : Str → W → Lookup (Safe F)}
    {get : Str → Lookup V} {get' : Str → Lookup W} {keys : List Str}
    (hget : ∀ key ∈ keys, LookupAgree R (get key) (get' key))
    (hmember : ∀ key v w, R v w → member key v = member' key w) :
    sanitizeKeys member get keys = sanitizeKeys member' get' keys := by
  induction keys with
  | nil => rfl
  | cons key keys ih =>
      rw [List.forall_mem_cons] at hget
      rw [sanitizeKeys, sanitizeKeys, ← ih hget.2]
      generalize get key = found, get' key = found' at hget
      cases hget.1 with
      | raises | missing => rfl
      | found h =>
          dsimp only
          rw [hmember key _ _ h]

/-- **Objects that answer alike** are sanitized alike. -/
theorem sanitizeMember_agree (hR : ∀ v w, R v w → ViewAgree R (heap.look v) (heap'.look w))
    (levels : ℕ) {depth : ℕ} (hlevels : maxSanitizeDepth < depth + levels) (key : Str) {value : V}
    {value' : W} (h : R value value') :
    sanitizeMember floats heap key value depth = sanitizeMember floats heap' key value' depth := by
  induction levels generalizing depth key value value' with
  | zero => rw [sanitizeMember, sanitizeMember, if_pos (by omega), if_pos (by omega)]
  | succ levels ih =>
      have hview := hR value value' h
      rw [sanitizeMember, sanitizeMember, sanitizeMapping, sanitizeMapping,
        sanitizeFlat_agree hR hview]
      generalize heap.look value = view, heap'.look value' = view' at hview
      cases hview with
      | mapping hget =>
          dsimp only
          rw [sanitizeKeys_agree hget fun key v w hvw => ih (by omega) key hvw]
      | _ => rfl

end Agreement

/-! ## Records -/

/-- The keys that every record has. -/
def recordKeys : List Str :=
  ["name", "msg", "args", "levelname", "levelno", "pathname", "filename", "module", "exc_info",
    "exc_text", "stack_info", "lineno", "funcName", "created", "msecs", "relativeCreated", "thread",
    "threadName", "processName", "process", "taskName", "message"].map String.toList

def timestampKeys : List Str := ["created", "msecs"].map String.toList

section Records

variable {floats : PyFloat F} {heap : Heap V F} {clock : Clock F} {message : Str} {level : ℕ}

/-- The message and the level of every record that is made. -/
def SafeHead (message : Str) (level : ℕ) : Prop :=
  (message ∈ eventNames ∨ message = redactedLogEvent) ∧ level ∈ [10, 20, 30, 40, 50]

theorem safeHead_base : SafeHead redactedLogEvent 20 := ⟨.inr rfl, by decide⟩

theorem safeHead_of (rawMessage rawLevel : View V F) :
    SafeHead (safeMessage rawMessage) (safeLevel rawLevel) := by
  constructor
  · cases rawMessage with
    | str s =>
        rw [safeMessage]
        split
        · exact .inl ‹_›
        · exact .inr rfl
    | _ => exact .inr rfl
  · have hinfo : 20 ∈ [10, 20, 30, 40, 50] := by decide
    cases rawLevel with
    | int n =>
        rw [safeLevel]
        split
        · rename_i hn
          simp only [List.mem_cons, List.not_mem_nil, or_false] at hn
          rcases hn with rfl | rfl | rfl | rfl | rfl <;> decide
        · exact hinfo
    | _ => exact hinfo

/-- Both are kept when they are read again. -/
theorem SafeHead.kept (h : SafeHead message level) :
    safeMessage (View.str (V := V) (F := F) message) = message ∧
      safeLevel (View.int (V := V) (F := F) level) = level := by
  obtain ⟨hmessage, hlevel⟩ := h
  constructor
  · rw [safeMessage]
    rcases hmessage with hevent | rfl
    · exact if_pos hevent
    · exact ite_self _
  · simp only [List.mem_cons, List.not_mem_nil, or_false] at hlevel
    rcases hlevel with rfl | rfl | rfl | rfl | rfl <;> rfl

theorem keys_safeRecordValues :
    (safeRecordValues floats clock message level).map (·.1) = recordKeys := rfl

theorem not_mem_safeExtraKeys : ∀ key ∈ recordKeys, key ∉ safeExtraKeys := by decide +kernel

theorem levelName_mem (level : ℕ) : levelName level ∈ fixedTexts := by
  unfold levelName
  split <;> decide +kernel

/-- The values that are made for every record hold fixed texts. -/
theorem safeRecordValues_safe (h : SafeHead message level) {m : Str × Safe F}
    (hm : m ∈ safeRecordValues floats clock message level) :
    (∀ s, m.2.HasText s → SafeText s) ∧ ∀ members, m.2 ≠ .mapping members := by
  have hfixed : ∀ s ∈ fixedTexts, ∀ text, (Safe.str (F := F) s).HasText text → SafeText text := by
    intro s hs text htext
    cases htext
    exact .inl hs
  have hmessage : ∀ text, (Safe.str (F := F) message).HasText text → SafeText text := by
    intro text htext
    cases htext
    rcases h.1 with hevent | rfl
    · exact .inr (.inl hevent)
    · exact .inl (by decide +kernel)
  have hnone : ∀ {value : Safe F}, (∀ s, ¬ value.HasText s) → ∀ text, value.HasText text → SafeText text :=
    fun h text htext => absurd htext (h text)
  constructor
  · simp only [safeRecordValues, List.mem_cons, List.not_mem_nil, or_false] at hm
    rcases hm with rfl | rfl | rfl | rfl | rfl | rfl | rfl | rfl | rfl | rfl | rfl | rfl | rfl | rfl |
      rfl | rfl | rfl | rfl | rfl | rfl | rfl | rfl
    case inr.inl => exact hmessage
    case inr.inr.inr.inl => exact hfixed _ (levelName_mem level)
    all_goals first
      | exact hmessage
      | exact hfixed _ (by decide +kernel)
      | exact hnone fun s hs => by cases hs <;> exact absurd ‹_› List.not_mem_nil
  · intro members hmapping
    simp only [safeRecordValues, List.mem_cons, List.not_mem_nil, or_false] at hm
    rcases hm with rfl | rfl | rfl | rfl | rfl | rfl | rfl | rfl | rfl | rfl | rfl | rfl | rfl | rfl |
      rfl | rfl | rfl | rfl | rfl | rfl | rfl | rfl <;> cases hmapping

/-- Two clocks only show in the timestamps. -/
theorem lookup_safeRecordValues (clock clock' : Clock F) {key : Str} (hkey : key ∉ timestampKeys) :
    (safeRecordValues floats clock message level).lookup key =
      (safeRecordValues floats clock' message level).lookup key := by
  simp only [timestampKeys, List.map_cons, List.map_nil, List.mem_cons, List.not_mem_nil, or_false,
    not_or] at hkey
  have hcreated := beq_false_of_ne hkey.1
  have hmsecs := beq_false_of_ne hkey.2
  simp only [safeRecordValues, List.lookup, hcreated, hmsecs]

/-! ### The fields -/

/-- The names of exception types for a record, `none` where something raises. -/
def recordExceptionTypes (heap : Heap V F) (get : Str → Lookup V) : Option (List Str) :=
  (getOrNone heap get "exc_info".toList).bind (exceptionTypes heap)

/-- Reading and then sanitizing is one loop. -/
theorem rawExtra_bind (member : Str → V → Lookup (Safe F)) (get : Str → Lookup V) (keys : List Str) :
    (rawExtra get keys).bind (sanitizeItems member) = sanitizeKeys member get keys := by
  induction keys with
  | nil => rfl
  | cons key keys ih =>
      rw [rawExtra, sanitizeKeys, ← ih]
      cases get key with
      | raises => rfl
      | missing => rfl
      | found value =>
          cases rawExtra get keys with
          | none => cases hmember : member key value <;> simp [hmember]
          | some items => rfl

/-- The fields in terms of what is kept of each part. -/
theorem safeValues_eq (clock : Clock F) (get : Str → Lookup V) :
    safeValues floats heap clock get = (do
      let message ← (getOrNone heap get "msg".toList).map safeMessage
      let level ← (getOrNone heap get "levelno".toList).map safeLevel
      let extra ← sanitizeKeys (fun key value => sanitizeMember floats heap key value 0) get safeExtraKeys
      let derived ← recordExceptionTypes heap get
      let values := Entries.setAll (safeRecordValues floats clock message level) extra
      pure (if derived = [] then values
        else Entries.set values "exception_types".toList (.tuple derived))) := by
  rw [safeValues, recordExceptionTypes, ← rawExtra_bind]
  cases getOrNone heap get "msg".toList with
  | none => rfl
  | some rawMessage =>
  cases getOrNone heap get "levelno".toList with
  | none => rfl
  | some rawLevel =>
  cases getOrNone heap get "exc_info".toList with
  | none =>
      cases (rawExtra get safeExtraKeys).bind (sanitizeItems fun key value =>
        sanitizeMember floats heap key value 0) <;> rfl
  | some rawExcInfo =>
  cases rawExtra get safeExtraKeys with
  | none => rfl
  | some raw => rfl

/-! ### Exceptions -/

theorem safeExceptionType_mem (error : V) : safeExceptionType heap error ∈ builtinExceptionTypes := by
  rw [safeExceptionType]
  split
  · exact Subtype.property _
  · decide +kernel

/-- The names are those of the table, and not too many. -/
theorem exceptionLoop_names {pending : List V} {visited : List ℕ} {collected names : List Str}
    (hlength : collected.length ≤ maxExceptionTypes) (hnames : ∀ s ∈ collected, s ∈ builtinExceptionTypes)
    (h : exceptionLoop heap pending visited collected = some names) :
    names.length ≤ maxExceptionTypes ∧ ∀ s ∈ names, s ∈ builtinExceptionTypes := by
  fun_induction exceptionLoop heap pending visited collected with
  | case1 | case2 =>
      cases h
      exact ⟨hlength, hnames⟩
  | case3 _ _ _ _ _ _ ih => exact ih hlength hnames h
  | case4 | case5 => cases h
  | case6 visited collected current pending hshort hfresh children hchildren pushed hpushed ih =>
      refine ih ?_ ?_ h
      · rw [List.length_append, List.length_singleton]
        omega
      · intro s hs
        rcases List.mem_append.mp hs with hs | hs
        · exact hnames s hs
        · rw [List.mem_singleton.mp hs]
          exact safeExceptionType_mem current

theorem exceptionTypes_names {excInfo : View V F} {names : List Str}
    (h : exceptionTypes heap excInfo = some names) :
    names.length ≤ maxExceptionTypes ∧ ∀ s ∈ names, s ∈ builtinExceptionTypes := by
  unfold exceptionTypes at h
  split at h
  · obtain ⟨exception, -, h⟩ := Option.bind_eq_some_iff.mp h
    split at h
    · exact exceptionLoop_names (by simp) (by simp) h
    · cases h
      simp
  · cases h
    simp

/-! ### What a record holds -/

/-- The entries of a record that is made: what every record has, and allowed values. -/
structure Made (floats : PyFloat F) (clock : Clock F) (message : Str) (level : ℕ)
    (out : List (Str × Safe F)) : Prop where
  head : SafeHead message level
  extra : ∀ key ∈ safeExtraKeys, ∀ value, out.lookup key = some value → Allowed floats 0 key value
  fixed : ∀ key ∉ safeExtraKeys,
    out.lookup key = (safeRecordValues floats clock message level).lookup key
  entries : ∀ m ∈ out, m.1 ∈ safeExtraKeys ∧ Allowed floats 0 m.1 m.2 ∨
    m ∈ safeRecordValues floats clock message level

theorem lookup_safeRecordValues_extra {key : Str} (hkey : key ∈ safeExtraKeys) :
    (safeRecordValues floats clock message level).lookup key = none := by
  refine Fallible.lookup_none_iff.mpr fun hmem => ?_
  rw [keys_safeRecordValues] at hmem
  exact not_mem_safeExtraKeys key hmem hkey

theorem made_safeRecordValues (h : SafeHead message level) :
    Made floats clock message level (safeRecordValues floats clock message level) where
  head := h
  extra := fun key hkey value hvalue => by
    rw [lookup_safeRecordValues_extra hkey] at hvalue
    cases hvalue
  fixed := fun _ _ => rfl
  entries := fun _ hm => .inr hm

/-- Setting allowed values keeps the form. -/
theorem Made.set {out : List (Str × Safe F)} (h : Made floats clock message level out) {key : Str}
    {value : Safe F} (hkey : key ∈ safeExtraKeys) (hvalue : Allowed floats 0 key value) :
    Made floats clock message level (Entries.set out key value) where
  head := h.head
  extra := fun k hk v hv => by
    rw [Entries.lookup_set] at hv
    split at hv
    · rename_i hsame
      cases hv
      exact hsame ▸ hvalue
    · exact h.extra k hk v hv
  fixed := fun k hk => by
    have hne : k ≠ key := fun heq => hk (heq ▸ hkey)
    rw [Entries.lookup_set, if_neg hne]
    exact h.fixed k hk
  entries := fun m hm => by
    rcases Entries.mem_set hm with rfl | hm
    · exact .inl ⟨hkey, hvalue⟩
    · exact h.entries m hm

theorem Made.setAll {out extra : List (Str × Safe F)} (h : Made floats clock message level out)
    (hextra : ∀ m ∈ extra, m.1 ∈ safeExtraKeys ∧ Allowed floats 0 m.1 m.2) :
    Made floats clock message level (Entries.setAll out extra) := by
  induction extra generalizing out with
  | nil => exact h
  | cons m extra ih =>
      rw [List.forall_mem_cons] at hextra
      exact ih (h.set hextra.1.1 hextra.1.2) hextra.2

/-- **What is made of a record** has this form. -/
theorem sanitizeLogRecord_made (floats : PyFloat F) (heap : Heap V F) (clock : Clock F)
    (record : LogRecord V) :
    ∃ message level, Made floats clock message level (sanitizeLogRecord floats heap clock record) := by
  have hbase : ∃ message level, Made floats clock message level
      (safeRecordValues floats clock redactedLogEvent 20) :=
    ⟨_, _, made_safeRecordValues safeHead_base⟩
  rw [sanitizeLogRecord]
  cases record.get? heap with
  | none => exact hbase
  | some get =>
      dsimp only
      cases hvalues : safeValues floats heap clock get with
      | none => exact hbase
      | some values =>
          dsimp only
          rw [safeValues_eq] at hvalues
          obtain ⟨message, hmessage, hvalues⟩ := Option.bind_eq_some_iff.mp hvalues
          obtain ⟨level, hlevel, hvalues⟩ := Option.bind_eq_some_iff.mp hvalues
          obtain ⟨extra, hextra, hvalues⟩ := Option.bind_eq_some_iff.mp hvalues
          obtain ⟨derived, hderived, hvalues⟩ := Option.bind_eq_some_iff.mp hvalues
          obtain ⟨rawMessage, -, rfl⟩ := Option.map_eq_some_iff.mp hmessage
          obtain ⟨rawLevel, -, rfl⟩ := Option.map_eq_some_iff.mp hlevel
          obtain ⟨hkeys, hfound⟩ := sanitizeKeys_eq_some hextra
          have hall : Made floats clock (safeMessage rawMessage) (safeLevel rawLevel)
              (Entries.setAll (safeRecordValues floats clock (safeMessage rawMessage)
                (safeLevel rawLevel)) extra) := by
            refine (made_safeRecordValues (safeHead_of rawMessage rawLevel)).setAll fun m hm => ?_
            obtain ⟨value, hvalue⟩ := hfound m hm
            exact ⟨hkeys.subset (List.mem_map_of_mem hm),
              sanitizeMember_allowed (maxSanitizeDepth + 1) (by omega) hvalue⟩
          obtain ⟨rawExcInfo, -, hderived⟩ := Option.bind_eq_some_iff.mp hderived
          obtain ⟨hlength, hnames⟩ := exceptionTypes_names hderived
          have hrule : ruleOf "exception_types".toList = .exceptionTypes := by decide +kernel
          cases hvalues
          refine ⟨safeMessage rawMessage, safeLevel rawLevel, ?_⟩
          split
          · exact hall
          · exact hall.set (by decide +kernel) (.exceptionTypes hrule hlength hnames)

/-- **Sanitizing again** gives the same fields. -/
theorem Made.sanitizeLogRecord_eq {out : List (Str × Safe F)} (h : Made floats clock message level out)
    (clock' : Clock F) {key : Str} (hkey : key ∉ timestampKeys) :
    (sanitizeLogRecord floats Safe.heap clock' (.exact (.mapping out))).lookup key = out.lookup key := by
  have hget : (LogRecord.exact (Safe.mapping out)).get? Safe.heap = some fun key =>
      match out.lookup key with
      | some value => .found value
      | none => .missing := rfl
  generalize hgetEq : (fun key => match out.lookup key with
    | some value => Lookup.found value
    | none => Lookup.missing) = get at hget
  have hfixed : ∀ (key : Str) (value : Safe F), key ∉ safeExtraKeys →
      (safeRecordValues floats clock message level).lookup key = some value →
        getOrNone Safe.heap get key = some value.look := by
    intro key value hextra hlookup
    rw [getOrNone, ← hgetEq]
    dsimp only
    rw [h.fixed key hextra, hlookup]
    rfl
  have hsafe := not_mem_safeExtraKeys
  have hmessage : getOrNone Safe.heap get "msg".toList = some (.str message) :=
    hfixed _ (.str message) (hsafe _ (by decide +kernel)) rfl
  have hlevel : getOrNone Safe.heap get "levelno".toList = some (.int level) :=
    hfixed _ (.int level) (hsafe _ (by decide +kernel)) rfl
  have hexcInfo : getOrNone Safe.heap get "exc_info".toList = some .none :=
    hfixed _ .null (hsafe _ (by decide +kernel)) rfl
  have hextra : sanitizeKeys (fun key value => sanitizeMember floats Safe.heap key value 0) get
      safeExtraKeys = some (Entries.select safeExtraKeys out) := by
    refine sanitizeKeys_of_found (fun key _ => by rw [← hgetEq]) fun key hkey value hlookup => ?_
    exact (h.extra key hkey value hlookup).sanitizeMember_eq (Nat.zero_le _)
  have hnodup : ((Entries.select safeExtraKeys out).map (·.1)).Nodup :=
    (Entries.keys_select_sublist _ _).nodup nodup_safeExtraKeys
  have hvalues : safeValues floats Safe.heap clock' get = some (Entries.setAll
      (safeRecordValues floats clock' message level) (Entries.select safeExtraKeys out)) := by
    rw [safeValues_eq, hmessage, hlevel, hextra, recordExceptionTypes, hexcInfo, Option.map_some,
      Option.map_some, h.head.kept.1, h.head.kept.2]
    exact congrArg some (if_pos rfl)
  rw [sanitizeLogRecord, hget]
  dsimp only
  rw [hvalues]
  dsimp only
  rw [Entries.lookup_setAll hnodup, Entries.lookup_select]
  by_cases hextraKey : key ∈ safeExtraKeys
  · rw [if_pos hextraKey, lookup_safeRecordValues_extra hextraKey, Option.or_none]
  · rw [if_neg hextraKey, Option.none_or, h.fixed key hextraKey]
    exact lookup_safeRecordValues clock' clock hkey

/-! ### Records that answer alike -/

section Answers

variable {heap' : Heap W F}

/-- The allowed fields, the message, the level and the exception types are alike. -/
structure GetAgree (heap : Heap V F) (heap' : Heap W F) (get : Str → Lookup V)
    (get' : Str → Lookup W) : Prop where
  message : LookupAgree (Agree heap heap') (get "msg".toList) ( get' "msg".toList)
  level : LookupAgree (Agree heap heap') (get "levelno".toList) ( get' "levelno".toList)
  exceptions : recordExceptionTypes heap get = recordExceptionTypes heap' get'
  extra : ∀ key ∈ safeExtraKeys, LookupAgree (Agree heap heap') (get key) (get' key)

/-- Both records are of another class, or both are read and answer alike. -/
def RecordAgree (heap : Heap V F) (heap' : Heap W F) (record : LogRecord V) (record' : LogRecord W) :
    Prop :=
  match record.get? heap, record'.get? heap' with
  | none, none => True
  | some get, some get' => GetAgree heap heap' get get'
  | _, _ => False

theorem LookupAgree.mono {α β : Type} {R S : α → β → Prop} {x : Lookup α} {y : Lookup β}
    (h : LookupAgree R x y) (hRS : ∀ a b, R a b → S a b) : LookupAgree S x y := by
  cases h with
  | raises => exact .raises
  | missing => exact .missing
  | found h => exact .found (hRS _ _ h)

theorem ViewAgree.mono {R S : V → W → Prop} {view : View V F} {view' : View W F}
    (h : ViewAgree R view view') (hRS : ∀ v w, R v w → S v w) : ViewAgree S view view' := by
  cases h with
  | none => exact .none
  | str s => exact .str s
  | uuid n h => exact .uuid n h
  | bool b => exact .bool b
  | int n => exact .int n
  | float x => exact .float x
  | list h => exact .list (h.imp hRS)
  | tuple h => exact .tuple (h.imp hRS)
  | mapping h => exact .mapping fun key hkey => (h key hkey).mono hRS
  | other h => exact .other (h.mono fun _ _ h => h.imp hRS)

/-- The relation is itself one that the objects keep. -/
theorem Agree.view (v : V) (w : W) (h : Agree heap heap' v w) :
    ViewAgree (Agree heap heap') (heap.look v) (heap'.look w) := by
  obtain ⟨R, hR, h⟩ := h
  exact (hR v w h).mono fun v w hvw => ⟨R, hR, hvw⟩

theorem getOrNone_agree {α : Type} {get : Str → Lookup V} {get' : Str → Lookup W} {key : Str}
    {f : View V F → α} {f' : View W F → α}
    (h : LookupAgree (Agree heap heap') (get key) (get' key))
    (hf : ∀ view view', ViewAgree (Agree heap heap') view view' → f view = f' view') :
    (getOrNone heap get key).map f = (getOrNone heap' get' key).map f' := by
  rw [getOrNone, getOrNone]
  generalize get key = found, get' key = found' at h
  cases h with
  | raises => rfl
  | missing => exact congrArg some (hf _ _ .none)
  | found h => exact congrArg some (hf _ _ (Agree.view _ _ h))

theorem safeMessage_agree {R : V → W → Prop} {view : View V F} {view' : View W F}
    (h : ViewAgree R view view') : safeMessage view = safeMessage view' := by
  cases h <;> rfl

theorem safeLevel_agree {R : V → W → Prop} {view : View V F} {view' : View W F}
    (h : ViewAgree R view view') : safeLevel view = safeLevel view' := by
  cases h <;> rfl

/-- **Records that answer alike** are sanitized alike. -/
theorem sanitizeLogRecord_agree {record : LogRecord V} {record' : LogRecord W}
    (h : RecordAgree heap heap' record record') :
    sanitizeLogRecord floats heap clock record = sanitizeLogRecord floats heap' clock record' := by
  rw [RecordAgree] at h
  rw [sanitizeLogRecord, sanitizeLogRecord]
  cases hget : record.get? heap with
  | none =>
      cases hget' : record'.get? heap' with
      | none => rfl
      | some get' =>
          rw [hget, hget'] at h
          exact h.elim
  | some get =>
      cases hget' : record'.get? heap' with
      | none =>
          rw [hget, hget'] at h
          exact h.elim
      | some get' =>
          rw [hget, hget'] at h
          have hextra : sanitizeKeys (fun key value => sanitizeMember floats heap key value 0) get
              safeExtraKeys = sanitizeKeys (fun key value => sanitizeMember floats heap' key value 0)
                get' safeExtraKeys :=
            sanitizeKeys_agree h.extra fun key v w hvw =>
              sanitizeMember_agree Agree.view (maxSanitizeDepth + 1) (by omega) key hvw
          dsimp only
          rw [safeValues_eq, safeValues_eq, getOrNone_agree h.message fun _ _ => safeMessage_agree,
            getOrNone_agree h.level fun _ _ => safeLevel_agree, h.exceptions, hextra]

/-- A record that is made shows its clock in the timestamps only. -/
theorem lookup_sanitizeLogRecord (clock clock' : Clock F) (record : LogRecord V) {key : Str}
    (hkey : key ∉ timestampKeys) : (sanitizeLogRecord floats heap clock record).lookup key =
      (sanitizeLogRecord floats heap clock' record).lookup key := by
  have hbase : (safeRecordValues floats clock redactedLogEvent 20).lookup key =
      (safeRecordValues floats clock' redactedLogEvent 20).lookup key :=
    lookup_safeRecordValues clock clock' hkey
  rw [sanitizeLogRecord, sanitizeLogRecord]
  cases record.get? heap with
  | none => exact hbase
  | some get =>
      dsimp only
      rw [safeValues_eq, safeValues_eq]
      cases (getOrNone heap get "msg".toList).map safeMessage with
      | none => exact hbase
      | some message =>
      cases (getOrNone heap get "levelno".toList).map safeLevel with
      | none => exact hbase
      | some level =>
      cases hextra : sanitizeKeys (fun key value => sanitizeMember floats heap key value 0) get
          safeExtraKeys with
      | none => exact hbase
      | some extra =>
      cases recordExceptionTypes heap get with
      | none => exact hbase
      | some derived =>
      have hnodup := (sanitizeKeys_eq_some hextra).1.nodup nodup_safeExtraKeys
      have hvalues : (Entries.setAll (safeRecordValues floats clock message level) extra).lookup key =
          (Entries.setAll (safeRecordValues floats clock' message level) extra).lookup key := by
        rw [Entries.lookup_setAll hnodup, Entries.lookup_setAll hnodup,
          lookup_safeRecordValues clock clock' hkey]
      simp only [Option.bind_eq_bind, Option.bind_some, Option.pure_def]
      split
      · exact hvalues
      · rw [Entries.lookup_set, Entries.lookup_set, hvalues]

end Answers

/-- **Log sanitizing is closed and leaks nothing.**  The output has fixed fields and allowed fields
only, and every text in it, at any depth, is a fixed or an allowed one, a canonical UUID or a request
id, under the key that it belongs to; its mappings are at most eight deep, also where the record
refers to itself.  Timestamps aside, records that answer alike give the same output, and sanitizing an
output gives it again. -/
theorem sanitizeLogRecord_safe (floats : PyFloat F) (heap : Heap V F) (clock : Clock F)
    (record : LogRecord V) :
    (∀ m ∈ sanitizeLogRecord floats heap clock record,
      (m.1 ∈ recordKeys ∨ m.1 ∈ safeExtraKeys ∧ Allowed floats 0 m.1 m.2) ∧
        (∀ s, m.2.HasText s → SafeText s) ∧ (∀ key, m.2.HasKey key → key ∈ safeExtraKeys) ∧
        m.2.Within maxSanitizeDepth) ∧
    (∀ (W : Type) (heap' : Heap W F) (clock' : Clock F) (record' : LogRecord W),
      RecordAgree heap heap' record record' → ∀ key ∉ timestampKeys,
        (sanitizeLogRecord floats heap clock record).lookup key =
          (sanitizeLogRecord floats heap' clock' record').lookup key) ∧
    ∀ (clock' : Clock F), ∀ key ∉ timestampKeys,
      (sanitizeLogRecord floats Safe.heap clock'
          (.exact (.mapping (sanitizeLogRecord floats heap clock record)))).lookup key =
        (sanitizeLogRecord floats heap clock record).lookup key := by
  obtain ⟨message, level, hmade⟩ := sanitizeLogRecord_made floats heap clock record
  refine ⟨fun m hm => ?_, ?_, ?_⟩
  · rcases hmade.entries m hm with ⟨hextra, hallowed⟩ | hfixed
    · exact ⟨.inr ⟨hextra, hallowed⟩, fun s hs => hallowed.safeText hs, fun key hkey =>
        hallowed.safeKey hkey, hallowed.within⟩
    · obtain ⟨htext, hflat⟩ := safeRecordValues_safe hmade.head hfixed
      have hrecord : m.1 ∈ recordKeys := by
        rw [← keys_safeRecordValues]
        exact List.mem_map_of_mem hfixed
      refine ⟨.inl hrecord, htext, fun key hkey => ?_, .flat hflat⟩
      generalize m.2 = value at hkey hflat
      cases hkey with
      | here | deeper => exact absurd rfl (hflat _)
  · intro W heap' clock' record' hagree key hkey
    rw [lookup_sanitizeLogRecord clock clock' record hkey, sanitizeLogRecord_agree hagree]
  · intro clock' key hkey
    exact hmade.sanitizeLogRecord_eq clock' hkey

end Records

/-! ## A record that refers to itself -/

namespace CyclicSample

def floats : PyFloat Unit := ⟨fun _ => none, fun _ => true, fun _ => true, ()⟩

/-- A mapping that is its own context. -/
def cyclic : Heap Unit Unit where
  look := fun _ => .mapping fun key => if key = "context".toList then .found () else .missing
  identity := fun _ => 0
  isException := fun _ => some false
  builtinType := fun _ => none
  exceptionChildren := fun _ => some []

/-- The same with a password. -/
def secret : Heap Bool Unit where
  look
    | true => .mapping fun key =>
        if key = "context".toList then .found true
        else if key = "password".toList then .found false
        else .missing
    | false => .str "hunter2".toList
  identity := fun v => v.toNat
  isException := fun _ => some false
  builtinType := fun _ => none
  exceptionChildren := fun _ => some []

theorem lookup_agree {R : Unit → Bool → Prop} (hR : R () true) {key : Str}
    (hkey : key ≠ "password".toList) : LookupAgree R
      (if key = "context".toList then .found () else .missing)
      (if key = "context".toList then .found true
        else if key = "password".toList then .found false else .missing) := by
  by_cases hcontext : key = "context".toList
  · rw [if_pos hcontext, if_pos hcontext]
    exact .found hR
  · rw [if_neg hcontext, if_neg hcontext, if_neg hkey]
    exact .missing

theorem agree : Agree cyclic secret () true := by
  refine ⟨fun _ v => v = true, ?_, rfl⟩
  rintro v w rfl
  refine .mapping fun key hkey => lookup_agree rfl ?_
  rintro rfl
  revert hkey
  decide +kernel

theorem recordAgree : RecordAgree cyclic secret (.exact ()) (.exact true) := by
  have hlookup : ∀ key, key ≠ "password".toList → LookupAgree (Agree cyclic secret) _ _ :=
    fun key => lookup_agree agree
  refine ⟨hlookup _ (by decide +kernel), hlookup _ (by decide +kernel), rfl, fun key hkey => ?_⟩
  refine hlookup key ?_
  rintro rfl
  revert hkey
  decide +kernel

end CyclicSample

open CyclicSample in
theorem sanitizeLogRecord_safe_cyclic :
    (sanitizeLogRecord floats cyclic ⟨(), ()⟩ (.exact ())).lookup "context".toList =
      (sanitizeLogRecord floats secret ⟨(), ()⟩ (.exact true)).lookup "context".toList :=
  (sanitizeLogRecord_safe floats cyclic ⟨(), ()⟩ (.exact ())).2.1 Bool secret ⟨(), ()⟩ (.exact true)
    recordAgree _ (by decide +kernel)

end VeloxRag.Observability
