import VeloxRag.Platform
import VeloxRag.Lib.Entries
import VeloxRag.Lib.Fallible
import VeloxRag.Lib.FirstMatch

/-!
# The hook settings of an agent

`install` writes two hooks into the settings an agent reads, and `uninstall` takes them out.  The
settings are an object a person edits: what is under `hooks` can have any shape, and hooks of other
tools stand beside, in one event and in one entry.

## Main definitions

* `isOurs`, `hookList`, `veloxHooks` — which hooks count as ours.
* `upsertHook`, `install`, `uninstall` — the two operations.
* `Kept`, `InstallKeepsOthers` — what an installation may change.
* `settingsWithout`, `UninstallKeepsOthers` — the settings without our hooks.
* `hooks_touch_only_their_own` — when the two operations do that.
-/

namespace VeloxRag.HookSettings

open VeloxRag.Lib

variable (P : Platform)

/-- An object of the settings. -/
abbrev Members := JsonMembers P.Float

/-! ## `str` -/

/-- `str.isprintable` of one character: no control, format or unassigned character, and no separator
but the space. -/
def isPrintable (c : Char) : Bool :=
  c = ' ' || !(P.unicode.category c).head?.any fun kind => kind = 'C' || kind = 'Z'

/-- A number in hexadecimal, of at least this width. -/
def hexDigits (width n : ℕ) : Str := (Nat.toDigits 16 n).leftpad width '0'

/-- A character as the representation of a string writes it. -/
def reprChar (quote c : Char) : Str :=
  if c = quote ∨ c = '\x5c' then ['\x5c', c]
  else if c = '\t' then ['\x5c', 't']
  else if c = '\n' then ['\x5c', 'n']
  else if c = '\r' then ['\x5c', 'r']
  else if c.toNat < 0x20 ∨ c.toNat = 0x7f then '\x5c' :: 'x' :: hexDigits 2 c.toNat
  else if c.toNat < 0x7f ∨ isPrintable P c = true then [c]
  else if c.toNat ≤ 0xff then '\x5c' :: 'x' :: hexDigits 2 c.toNat
  else if c.toNat ≤ 0xffff then '\x5c' :: 'u' :: hexDigits 4 c.toNat
  else '\x5c' :: 'U' :: hexDigits 8 c.toNat

/-- `repr` of a string, in double quotes only if it has single ones and no double ones. -/
def reprStr (s : Str) : Str :=
  let quote := if '\x27' ∈ s ∧ '\x22' ∉ s then '\x22' else '\x27'
  quote :: (s.flatMap (reprChar P quote) ++ [quote])

mutual
/-- `repr` of a value that was read from JSON. -/
def repr : Json P.Float → Str
  | .null => "None".toList
  | .bool true => "True".toList
  | .bool false => "False".toList
  | .int n => Json.decimal n
  | .float f => P.floats.repr f
  | .str s => reprStr P s
  | .arr items => '[' :: ([',', ' '].intercalate (reprItems items) ++ [']'])
  | .obj members => '\x7b' :: ([',', ' '].intercalate (reprMembers members) ++ ['\x7d'])

def reprItems : List (Json P.Float) → List Str
  | [] => []
  | item :: items => repr item :: reprItems items

def reprMembers : List (Str × Json P.Float) → List Str
  | [] => []
  | (key, value) :: members => (reprStr P key ++ ':' :: ' ' :: repr value) :: reprMembers members
end

/-- `str(value)`. -/
def pyStr : Json P.Float → Str
  | .str s => s
  | value => repr P value

/-! ## Our hooks -/

/-- `_HOOK_MARKER`. -/
def hookMarker : Str := "velox-hook".toList

def hooksKey : Str := "hooks".toList

def commandKey : Str := "command".toList

def timeoutKey : Str := "timeout".toList

variable {P}

/-- `isinstance(hook, dict) and _HOOK_MARKER in str(hook.get("command", ""))`. -/
def isOurs : Json P.Float → Bool
  | .obj hook => decide (hookMarker <:+: pyStr P ((hook.lookup commandKey).getD (.str [])))
  | _ => false

/-- The list of hooks of an entry, if the entry is an object that has one. -/
def hookList : Json P.Float → Option (List (Json P.Float))
  | .obj entry =>
    match entry.lookup hooksKey with
    | some (.arr hooks) => some hooks
    | _ => none
  | _ => none

/-! ## Installing -/

/-- One hook of ours, with its command and timeout replaced. -/
def pointHook (command : Str) (timeout : ℤ) (hook : Json P.Float) : Option (Json P.Float) :=
  match hook with
  | .obj members =>
    if isOurs hook then
      some (.obj (Entries.set (Entries.set members commandKey (.str command)) timeoutKey
        (.int timeout)))
    else none
  | _ => none

/-- The inner loop of `_upsert_hook`. -/
def pointEntry (command : Str) (timeout : ℤ) (entry : Json P.Float) : Option (Json P.Float) :=
  match entry with
  | .obj members =>
    match members.lookup hooksKey with
    | some (.arr hooks) =>
      (replaceFirst (pointHook command timeout) hooks).map fun hooks =>
        .obj (Entries.set members hooksKey (.arr hooks))
    | _ => none
  | _ => none

inductive Action
  | updated
  | added
  deriving DecidableEq

def Action.text : Action → Str
  | .updated => "updated".toList
  | .added => "added".toList

/-- The hook an installation adds. -/
def freshHook (command : Str) (timeout : ℤ) : Json P.Float :=
  .obj [("type".toList, .str "command".toList), (commandKey, .str command),
    (timeoutKey, .int timeout)]

def freshEntry (command : Str) (timeout : ℤ) : Json P.Float :=
  .obj [(hooksKey, .arr [freshHook command timeout])]

/-- `_upsert_hook`: the list of entries afterwards, and what it returns. -/
def upsertHook (entries : List (Json P.Float)) (command : Str) (timeout : ℤ) :
    List (Json P.Float) × Action :=
  match replaceFirst (pointEntry command timeout) entries with
  | some entries => (entries, .updated)
  | none => (entries ++ [freshEntry command timeout], .added)

/-- An event with the subcommand and the timeout of its hook. -/
structure HookEvent where
  name : Str
  subcommand : Str
  timeout : ℤ

def userPromptSubmit : HookEvent := ⟨"UserPromptSubmit".toList, "retrieve".toList, 10⟩

def stop : HookEvent := ⟨"Stop".toList, "record".toList, 15⟩

/-- The two events `install` writes to. -/
def hookEvents : List HookEvent := [userPromptSubmit, stop]

/-- The command of the event's hook, for the executable that is running. -/
def HookEvent.command (event : HookEvent) (base : Str) : Str := base ++ ' ' :: event.subcommand

/-- `(event, action, command)`. -/
structure Change where
  event : Str
  action : Action
  command : Str

/-- One turn of the loop over the events. -/
def installEvent (path base : Str) (hooks : Members P) (event : HookEvent) :
    Except Str (Members P × Change) :=
  match (hooks.lookup event.name).getD (.arr []) with
  | .arr entries =>
    let (entries, action) := upsertHook entries (event.command base) event.timeout
    .ok (Entries.set hooks event.name (.arr entries), ⟨event.name, action, event.command base⟩)
  | _ => .error ("velox-hook install: ".toList ++ path ++ " has a '".toList ++ event.name ++
      "' hook list that is not an array".toList)

/-- What `install` does to the settings. -/
def installSettings (path base : Str) (settings : Members P) :
    Except Str (Members P × List Change) :=
  match (settings.lookup hooksKey).getD (.obj []) with
  | .obj hooks => do
    let (hooks, prompt) ← installEvent path base hooks userPromptSubmit
    let (hooks, answer) ← installEvent path base hooks stop
    .ok (Entries.set settings hooksKey (.obj hooks), [prompt, answer])
  | _ => .error ("velox-hook install: ".toList ++ path ++
      " has a 'hooks' key that is not an object".toList)

/-- The settings file: there is none, `_read_settings` refuses it, or it holds an object. -/
inductive SettingsFile (P : Platform)
  | missing
  | unreadable (message : Str)
  | holds (settings : Members P)

/-- `_read_settings`. -/
def readSettings : SettingsFile P → Except Str (Members P)
  | .missing => .ok []
  | .unreadable message => .error message
  | .holds settings => .ok settings

/-- An exit code, the lines printed and the settings written, if any. -/
structure Report (P : Platform) where
  code : ℕ
  stdout : List Str
  stderr : List Str
  written : Option (Members P)

def Report.refused (message : Str) : Report P := ⟨1, [], [message], none⟩

inductive Agent
  | claude
  | codex
  deriving DecidableEq

def trustNotice : Str :=
  ("codex trusts hook commands by hash: start codex and approve these " ++
    "two entries, or they stay registered and silent").toList

def createdLine (path : Str) : SettingsFile P → List Str
  | .missing => ["created ".toList ++ path]
  | .unreadable _ => []
  | .holds _ => []

/-- `install`, with the settings file at `path` and the result of `_hook_base_command`. -/
def install (agent : Agent) (path : Str) (file : SettingsFile P) (base : Except Str Str) : Report P :=
  match readSettings file with
  | .error message => .refused ("velox-hook install: ".toList ++ message)
  | .ok settings =>
    match base with
    | .error message => .refused ("velox-hook install: ".toList ++ message)
    | .ok base =>
      match installSettings path base settings with
      | .error message => .refused message
      | .ok (settings, changes) =>
        let lines := changes.map fun change => change.action.text ++ ' ' :: change.event ++
          " hook: ".toList ++ change.command
        let notice := if agent = .codex then [trustNotice] else []
        ⟨0, createdLine path file ++ lines ++ notice, [], some settings⟩

/-! ## Uninstalling -/

/-- An entry without our hooks, unless nothing is left, and whether it had any. -/
def uninstallEntry (entry : Json P.Float) : Option (Json P.Float) × Bool :=
  match entry with
  | .obj members =>
    match members.lookup hooksKey with
    | some (.arr hooks) =>
      let kept := hooks.filter (!isOurs ·)
      (if kept.isEmpty then none else some (.obj (Entries.set members hooksKey (.arr kept))),
        kept.length != hooks.length)
    | _ => (some entry, false)
  | _ => (some entry, false)

/-- An event without our hooks, unless nothing is left, and whether it had any. -/
def uninstallEvent (event : Str × Json P.Float) : Option (Str × Json P.Float) × Bool :=
  match event.2 with
  | .arr entries =>
    let kept := entries.filterMap fun entry => (uninstallEntry entry).1
    (if kept.isEmpty then none else some (event.1, .arr kept),
      entries.any fun entry => (uninstallEntry entry).2)
  | _ => (some event, false)

/-- The settings after the loop over the events, and `removed_events`. -/
def uninstallSettings (settings : Members P) : Members P × List Str :=
  match settings.lookup hooksKey with
  | some (.obj hooks) =>
    let kept := hooks.filterMap fun event => (uninstallEvent event).1
    (if kept.isEmpty then settings.filter (·.1 ≠ hooksKey)
      else Entries.set settings hooksKey (.obj kept),
      (hooks.filter fun event => (uninstallEvent event).2).map Prod.fst)
  | _ => (settings, [])

/-- `uninstall`; without an event to change the file is not written. -/
def uninstall (path : Str) : SettingsFile P → Report P
  | .unreadable message => .refused ("velox-hook uninstall: ".toList ++ message)
  | .missing => ⟨0, ["velox-hook uninstall: nothing to remove, ".toList ++ path ++
      " does not exist".toList], [], none⟩
  | .holds settings =>
    let (settings, removed) := uninstallSettings settings
    if removed.isEmpty then
      ⟨0, ["velox-hook uninstall: nothing to remove, no velox-hook entries found".toList], [], none⟩
    else
      ⟨0, removed.map fun event => "removed ".toList ++ event ++ " hook".toList, [], some settings⟩

/-! ## What an installation may change -/

/-- The hooks of an entry that are ours. -/
def ownHooks (entry : Json P.Float) : List (Json P.Float) :=
  ((hookList entry).getD []).flatMap fun hook => if isOurs hook then [hook] else []

/-- The hooks of an event that are ours, in order. -/
def veloxHooks (entries : List (Json P.Float)) : List (Json P.Float) := entries.flatMap ownHooks

/-- The object under `hooks`, empty if there is none. -/
def hooksOf (settings : Members P) : Members P :=
  match settings.lookup hooksKey with
  | some (.obj hooks) => hooks
  | _ => []

/-- The entries of an event, none if it has no list. -/
def entriesOf (hooks : Members P) (event : HookEvent) : List (Json P.Float) :=
  match hooks.lookup event.name with
  | some (.arr entries) => entries
  | _ => []

/-- `hook["command"]` of an object. -/
def commandOf : Json P.Float → Option (Json P.Float)
  | .obj hook => hook.lookup commandKey
  | _ => none

/-- The entries of an event after an installation: one hook of ours has a new command and timeout,
or, where there was none, a new entry comes last. -/
inductive EntriesKept (command : Str) (timeout : ℤ) :
    List (Json P.Float) → List (Json P.Float) → Prop
  | updated (before after : List (Json P.Float)) (entry : Members P)
      (first rest : List (Json P.Float)) (hook : Members P)
      (hhooks : entry.lookup hooksKey = some (.arr (first ++ .obj hook :: rest)))
      (hours : isOurs (.obj hook) = true) :
      EntriesKept command timeout (before ++ .obj entry :: after)
        (before ++ .obj (Entries.set entry hooksKey (.arr (first ++ .obj (Entries.set
          (Entries.set hook commandKey (.str command)) timeoutKey (.int timeout)) :: rest))) :: after)
  | added (entries : List (Json P.Float)) (hnone : veloxHooks entries = []) :
      EntriesKept command timeout entries (entries ++ [freshEntry command timeout])

/-- Settings after an installation: other keys and other events are as before, and in each of the two
events everything but one hook is. -/
def Kept (base : Str) (settings settings' : Members P) : Prop :=
  ∃ prompts answers : List (Json P.Float),
    EntriesKept (userPromptSubmit.command base) userPromptSubmit.timeout
      (entriesOf (hooksOf settings) userPromptSubmit) prompts ∧
    EntriesKept (stop.command base) stop.timeout (entriesOf (hooksOf settings) stop) answers ∧
    settings' = Entries.set settings hooksKey (.obj (Entries.set (Entries.set (hooksOf settings)
      userPromptSubmit.name (.arr prompts)) stop.name (.arr answers)))

/-- The event has one hook of ours, with the current command. -/
def OneCurrentHook (base : Str) (settings : Members P) (event : HookEvent) : Prop :=
  ∃ hook, veloxHooks (entriesOf (hooksOf settings) event) = [hook] ∧
    commandOf hook = some (.str (event.command base))

/-- What an installation that wrote `settings'` owes to the settings it read. -/
structure InstallKeepsOthers (agent : Agent) (path base : Str) (settings settings' : Members P) :
    Prop where
  one : ∀ event ∈ hookEvents, OneCurrentHook base settings' event
  kept : Kept base settings settings'
  again : (install agent path (.holds settings') (.ok base)).written = some settings'

/-! ### Hooks of ours -/

variable {entry hook : Json P.Float} {entries entries' : List (Json P.Float)} {command : Str}
  {timeout : ℤ} {settings settings' hooks : Members P} {event : HookEvent} {path base : Str}

theorem mem_ownHooks : hook ∈ ownHooks entry ↔
    ∃ hooks, hookList entry = some hooks ∧ hook ∈ hooks ∧ isOurs hook = true := by
  cases h : hookList entry with
  | none => simp [ownHooks, h]
  | some hooks =>
      simp only [ownHooks, h, Option.getD_some, List.mem_flatMap, Option.some.injEq,
        exists_eq_left']
      constructor
      · rintro ⟨hook', hmem, hin⟩
        by_cases hours : isOurs hook' = true
        · rw [if_pos hours, List.mem_singleton] at hin
          exact hin ▸ ⟨hmem, hours⟩
        · rw [if_neg hours] at hin
          cases hin
      · intro ⟨hmem, hours⟩
        exact ⟨hook, hmem, by rw [if_pos hours]; exact List.mem_singleton_self _⟩

theorem isOurs_of_mem (h : hook ∈ veloxHooks entries) : isOurs hook = true := by
  obtain ⟨entry, -, hmem⟩ := List.mem_flatMap.mp h
  obtain ⟨-, -, -, hours⟩ := mem_ownHooks.mp hmem
  exact hours

theorem isOurs_of_command (h : commandOf hook = some (.str command)) :
    isOurs hook = decide (hookMarker <:+: command) := by
  cases hook with
  | obj members =>
      have hcommand : members.lookup commandKey = some (.str command) := h
      rw [isOurs, hcommand, Option.getD_some, pyStr]
  | _ => cases h

/-! ### One event -/

theorem pointHook_eq_some {hook' : Json P.Float} (h : pointHook command timeout hook = some hook') :
    ∃ members, hook = .obj members ∧ isOurs hook = true ∧
      hook' = .obj (Entries.set (Entries.set members commandKey (.str command)) timeoutKey
        (.int timeout)) := by
  cases hook with
  | obj members =>
      rw [pointHook] at h
      split at h
      · rename_i hours
        exact ⟨members, rfl, hours, (Option.some.inj h).symm⟩
      · cases h
  | _ => cases h

theorem isOurs_of_pointHook (h : pointHook command timeout hook = none) : isOurs hook = false := by
  cases hook with
  | obj members =>
      rw [pointHook] at h
      split at h
      · cases h
      · rename_i hours
        exact Bool.eq_false_iff.mpr hours
  | _ => rfl

theorem commandOf_pointHook {hook' : Json P.Float}
    (h : pointHook command timeout hook = some hook') : commandOf hook' = some (.str command) := by
  obtain ⟨members, -, -, rfl⟩ := pointHook_eq_some h
  rw [commandOf, Entries.lookup_set, if_neg (by decide), Entries.lookup_set, if_pos rfl]

/-- A hook with this command and timeout stays as it is. -/
theorem pointHook_eq_self {members : Members P}
    (hcommand : members.lookup commandKey = some (.str command))
    (htimeout : members.lookup timeoutKey = some (.int timeout)) (hmarker : hookMarker <:+: command) :
    pointHook command timeout (.obj members) = some (.obj members) := by
  have hcommandOf : commandOf (.obj members) = some (.str command) := hcommand
  have hours : isOurs (.obj members : Json P.Float) = true := by
    rw [isOurs_of_command hcommandOf, decide_eq_true hmarker]
  rw [pointHook, if_pos hours, Entries.set_of_lookup hcommand, Entries.set_of_lookup htimeout]

theorem pointHook_idem (hmarker : hookMarker <:+: command) (hook hook' : Json P.Float)
    (h : pointHook command timeout hook = some hook') :
    pointHook command timeout hook' = some hook' := by
  have hcommand := commandOf_pointHook h
  obtain ⟨members, -, -, rfl⟩ := pointHook_eq_some h
  exact pointHook_eq_self hcommand (by rw [Entries.lookup_set, if_pos rfl]) hmarker

theorem pointEntry_eq_some {entry' : Json P.Float}
    (h : pointEntry command timeout entry = some entry') :
    ∃ members hooks hooks', entry = .obj members ∧ members.lookup hooksKey = some (.arr hooks) ∧
      replaceFirst (pointHook command timeout) hooks = some hooks' ∧
      entry' = .obj (Entries.set members hooksKey (.arr hooks')) := by
  cases entry with
  | obj members =>
      rw [pointEntry] at h
      split at h
      · rename_i hooks hlookup
        obtain ⟨hooks', hreplace, heq⟩ := Option.map_eq_some_iff.mp h
        exact ⟨members, hooks, hooks', rfl, hlookup, hreplace, heq.symm⟩
      · cases h
  | _ => cases h

theorem ownHooks_of_pointEntry (h : pointEntry command timeout entry = none) :
    ownHooks entry = [] := by
  rw [List.eq_nil_iff_forall_not_mem]
  intro hook hmem
  obtain ⟨hooks, hlist, hin, hours⟩ := mem_ownHooks.mp hmem
  cases entry with
  | obj members =>
      rw [hookList] at hlist
      split at hlist
      · rename_i hooks' hlookup
        obtain rfl : hooks' = hooks := Option.some.inj hlist
        simp only [pointEntry, hlookup, Option.map_eq_none_iff] at h
        have hnot := isOurs_of_pointHook (replaceFirst_eq_none.mp h hook hin)
        rw [hnot] at hours
        cases hours
      · cases hlist
  | _ => cases hlist

/-- The hooks of ours in an entry before and after the change differ in the first. -/
theorem ownHooks_pointEntry {entry' : Json P.Float}
    (h : pointEntry command timeout entry = some entry') :
    ∃ hook hook' rest, commandOf hook' = some (.str command) ∧ ownHooks entry = hook :: rest ∧
      ownHooks entry' = (if isOurs hook' then [hook'] else []) ++ rest := by
  obtain ⟨members, hooks, hooks', rfl, hlookup, hreplace, rfl⟩ := pointEntry_eq_some h
  obtain ⟨hook, hook', rest, hpoint, hbefore, hafter⟩ := flatMap_replaceFirst
    (g := fun hook => if isOurs hook then [hook] else [])
    (fun hook hnone => by rw [isOurs_of_pointHook hnone]; rfl) hreplace
  obtain ⟨-, -, hours, -⟩ := pointHook_eq_some hpoint
  rw [if_pos hours] at hbefore
  refine ⟨hook, hook', rest, commandOf_pointHook hpoint, ?_, ?_⟩
  · rw [ownHooks, hookList, hlookup]
    exact hbefore
  · rw [ownHooks, hookList, Entries.lookup_set, if_pos rfl]
    exact hafter

theorem pointEntry_idem (hmarker : hookMarker <:+: command) (entry entry' : Json P.Float)
    (h : pointEntry command timeout entry = some entry') :
    pointEntry command timeout entry' = some entry' := by
  obtain ⟨members, hooks, hooks', rfl, -, hreplace, rfl⟩ := pointEntry_eq_some h
  have hlookup : (Entries.set members hooksKey (.arr hooks')).lookup hooksKey = some (.arr hooks') := by
    rw [Entries.lookup_set, if_pos rfl]
  have hagain := replaceFirst_idem (pointHook_idem hmarker) hreplace
  simp only [pointEntry, hlookup, hagain, Option.map_some, Entries.set_of_lookup hlookup]

theorem pointEntry_freshEntry (hmarker : hookMarker <:+: command) :
    pointEntry command timeout (freshEntry command timeout : Json P.Float) =
      some (freshEntry command timeout) := by
  have hhook : pointHook command timeout (freshHook command timeout : Json P.Float) =
      some (freshHook command timeout) := pointHook_eq_self rfl rfl hmarker
  have hlookup : ([(hooksKey, .arr [freshHook command timeout])] : Members P).lookup hooksKey =
      some (.arr [freshHook command timeout]) := rfl
  simp only [freshEntry, pointEntry, hlookup, replaceFirst, hhook, Option.map_some,
    Entries.set_of_lookup hlookup]

/-- **The loop over the entries** changes the first hook of ours and leaves the others. -/
theorem veloxHooks_upsertHook : ∃ hook, commandOf hook = some (.str command) ∧
    veloxHooks (upsertHook entries command timeout).1 =
      (if isOurs hook then [hook] else []) ++ (veloxHooks entries).tail := by
  rw [upsertHook]
  cases h : replaceFirst (pointEntry command timeout) entries with
  | some entries' =>
      obtain ⟨entry, entry', rest, hpoint, hbefore, hafter⟩ :=
        flatMap_replaceFirst (fun entry => ownHooks_of_pointEntry) h
      obtain ⟨hook, hook', own, hcommand, hown, hown'⟩ := ownHooks_pointEntry hpoint
      refine ⟨hook', hcommand, ?_⟩
      simp only [veloxHooks, hbefore, hafter, hown, hown', List.cons_append, List.tail_cons,
        List.append_assoc]
  | none =>
      have hempty : veloxHooks entries = [] := by
        rw [veloxHooks, List.flatMap_eq_nil_iff]
        exact fun entry hmem => ownHooks_of_pointEntry (replaceFirst_eq_none.mp h entry hmem)
      refine ⟨freshHook command timeout, rfl, ?_⟩
      have hfresh : hookList (freshEntry command timeout : Json P.Float) =
        some [freshHook command timeout] := rfl
      simp only [veloxHooks, List.flatMap_append] at hempty ⊢
      rw [hempty]
      simp [ownHooks, hfresh]

/-- One hook of ours with the current command: the command counts as ours, and there was at most one
before. -/
theorem one_upsertHook_iff :
    (∃ hook, veloxHooks (upsertHook entries command timeout).1 = [hook] ∧
      commandOf hook = some (.str command)) ↔
    hookMarker <:+: command ∧ (veloxHooks entries).length ≤ 1 := by
  obtain ⟨hook', hcommand', hafter⟩ := @veloxHooks_upsertHook P entries command timeout
  rw [isOurs_of_command hcommand'] at hafter
  constructor
  · intro ⟨hook, heq, hcommand⟩
    have hmem : hook ∈ veloxHooks (upsertHook entries command timeout).1 := by
      rw [heq]
      exact List.mem_singleton_self hook
    have hmarker := isOurs_of_mem hmem
    rw [isOurs_of_command hcommand, decide_eq_true_iff] at hmarker
    refine ⟨hmarker, ?_⟩
    rw [hafter, decide_eq_true hmarker, if_pos rfl, List.singleton_append, List.cons.injEq] at heq
    have hlength := congrArg List.length heq.2
    rw [List.length_tail, List.length_nil] at hlength
    omega
  · intro ⟨hmarker, hlength⟩
    have htail : (veloxHooks entries).tail = [] := by
      rw [← List.length_eq_zero_iff, List.length_tail]
      omega
    refine ⟨hook', ?_, hcommand'⟩
    rw [hafter, htail, decide_eq_true hmarker, if_pos rfl, List.append_nil]

theorem entriesKept_upsertHook :
    EntriesKept command timeout entries (upsertHook entries command timeout).1 := by
  rw [upsertHook]
  cases h : replaceFirst (pointEntry command timeout) entries with
  | some entries' =>
      obtain ⟨before, entry, entry', after, rfl, rfl, -, hpoint⟩ := replaceFirst_eq_some.mp h
      obtain ⟨members, hooks, hooks', rfl, hlookup, hreplace, rfl⟩ := pointEntry_eq_some hpoint
      obtain ⟨first, hook, hook', rest, rfl, rfl, -, hhook⟩ := replaceFirst_eq_some.mp hreplace
      obtain ⟨fields, rfl, hours, rfl⟩ := pointHook_eq_some hhook
      exact .updated before after members first rest fields hlookup hours
  | none =>
      refine .added entries ?_
      rw [veloxHooks, List.flatMap_eq_nil_iff]
      exact fun entry hmem => ownHooks_of_pointEntry (replaceFirst_eq_none.mp h entry hmem)

/-- A second loop with the same command changes nothing. -/
theorem upsertHook_idem (hmarker : hookMarker <:+: command) :
    (upsertHook (upsertHook entries command timeout).1 command timeout).1 =
      (upsertHook entries command timeout).1 := by
  cases h : replaceFirst (pointEntry command timeout) entries with
  | some entries' =>
      have hfirst : (upsertHook entries command timeout).1 = entries' := by rw [upsertHook, h]
      rw [hfirst, upsertHook, replaceFirst_idem (pointEntry_idem hmarker) h]
  | none =>
      have hfirst : (upsertHook entries command timeout).1 =
        entries ++ [freshEntry command timeout] := by rw [upsertHook, h]
      rw [hfirst, upsertHook, replaceFirst_append (replaceFirst_eq_none.mp h), replaceFirst,
        pointEntry_freshEntry hmarker]
      rfl

/-! ### Both events -/

/-- A text across a separator it does not have is on one side of it. -/
theorem infix_separated_iff {m a b : Str} {c : Char} (hc : c ∉ m) :
    m <:+: a ++ c :: b ↔ m <:+: a ∨ m <:+: b := by
  constructor
  · intro ⟨s, t, h⟩
    rcases List.append_eq_append_iff.mp h with ⟨u, ha, -⟩ | ⟨u, hsm, hu⟩
    · exact .inl ⟨s, u, ha.symm⟩
    · cases u with
      | nil => exact .inl ⟨s, [], by simpa using hsm⟩
      | cons d u =>
          obtain ⟨rfl, rfl⟩ : c = d ∧ b = u ++ t := by simpa using hu
          rcases List.append_eq_append_iff.mp hsm with ⟨v, -, hm⟩ | ⟨v, -, hv⟩
          · exact absurd (hm ▸ List.mem_append_right _ List.mem_cons_self) hc
          · cases v with
            | nil =>
                obtain rfl : c :: u = m := by simpa using hv
                exact absurd List.mem_cons_self hc
            | cons e v =>
                obtain ⟨rfl, rfl⟩ : c = e ∧ u = v ++ m := by simpa using hv
                exact .inr ⟨v, t, rfl⟩
  · rintro (h | h)
    · exact h.trans (List.prefix_append _ _).isInfix
    · exact h.trans ⟨a ++ [c], [], by simp⟩

theorem marker_command_iff (h : event ∈ hookEvents) :
    hookMarker <:+: event.command base ↔ hookMarker <:+: base := by
  rw [HookEvent.command, infix_separated_iff (by decide)]
  have hsubcommand : ¬ hookMarker <:+: event.subcommand := by
    rcases List.mem_pair.mp h with rfl | rfl
    all_goals decide
  exact or_iff_left hsubcommand

/-- The entries of an event after the loop. -/
def upserted (base : Str) (hooks : Members P) (event : HookEvent) : List (Json P.Float) :=
  (upsertHook (entriesOf hooks event) (event.command base) event.timeout).1

/-- The settings after an installation. -/
def installed (base : Str) (settings : Members P) : Members P :=
  let hooks := hooksOf settings
  Entries.set settings hooksKey (.obj (Entries.set
    (Entries.set hooks userPromptSubmit.name (.arr (upserted base hooks userPromptSubmit)))
    stop.name (.arr (upserted base hooks stop))))

theorem installEvent_eq_ok {result : Members P × Change}
    (h : installEvent path base hooks event = .ok result) :
    result.1 = Entries.set hooks event.name (.arr (upserted base hooks event)) := by
  rw [installEvent] at h
  split at h
  · rename_i entries hentries
    have hlist : entriesOf hooks event = entries := by
      cases hlookup : hooks.lookup event.name with
      | none =>
          simp only [hlookup, Option.getD_none, Json.arr.injEq] at hentries
          simp only [entriesOf, hlookup, hentries]
      | some value =>
          simp only [hlookup, Option.getD_some] at hentries
          simp only [entriesOf, hlookup, hentries]
    rw [upserted, hlist]
    exact congrArg Prod.fst (Except.ok.inj h).symm
  · cases h

theorem entriesOf_set_of_ne {name : Str} {value : Json P.Float} (h : event.name ≠ name) :
    entriesOf (Entries.set hooks name value) event = entriesOf hooks event := by
  rw [entriesOf, entriesOf, Entries.lookup_set, if_neg h]

theorem upserted_set_of_ne {name : Str} {value : Json P.Float} (h : event.name ≠ name) :
    upserted base (Entries.set hooks name value) event = upserted base hooks event := by
  rw [upserted, upserted, entriesOf_set_of_ne h]

theorem entriesOf_set {entries : List (Json P.Float)} :
    entriesOf (Entries.set hooks event.name (.arr entries)) event = entries := by
  rw [entriesOf, Entries.lookup_set, if_pos rfl]

theorem installSettings_eq_ok {result : Members P × List Change}
    (h : installSettings path base settings = .ok result) : result.1 = installed base settings := by
  rw [installSettings] at h
  split at h
  · rename_i hooks hhooks
    have hobject : hooksOf settings = hooks := by
      cases hlookup : settings.lookup hooksKey with
      | none =>
          simp only [hlookup, Option.getD_none, Json.obj.injEq] at hhooks
          simp only [hooksOf, hlookup, hhooks]
      | some value =>
          simp only [hlookup, Option.getD_some] at hhooks
          simp only [hooksOf, hlookup, hhooks]
    obtain ⟨prompt, hprompt, h⟩ := Fallible.bind_ok_iff.mp h
    obtain ⟨answer, hanswer, h⟩ := Fallible.bind_ok_iff.mp h
    obtain rfl := Except.ok.inj h
    have hfirst := installEvent_eq_ok hprompt
    have hsecond := installEvent_eq_ok hanswer
    rw [hfirst, upserted_set_of_ne (by decide)] at hsecond
    simp only [hsecond, installed, hobject]
  · cases h

theorem hooksOf_installed : hooksOf (installed base settings) =
    Entries.set (Entries.set (hooksOf settings) userPromptSubmit.name
      (.arr (upserted base (hooksOf settings) userPromptSubmit)))
      stop.name (.arr (upserted base (hooksOf settings) stop)) := by
  rw [installed, hooksOf, Entries.lookup_set, if_pos rfl]

theorem entriesOf_installed (h : event ∈ hookEvents) :
    entriesOf (hooksOf (installed base settings)) event = upserted base (hooksOf settings) event := by
  rw [hooksOf_installed]
  rcases List.mem_pair.mp h with rfl | rfl
  · rw [entriesOf_set_of_ne (by decide), entriesOf_set]
  · exact entriesOf_set

/-- Installing twice is accepted, and writes what installing once does. -/
theorem installSettings_installed (path : Str) (hmarker : hookMarker <:+: base) :
    ∃ changes, installSettings path base (installed base settings) =
      .ok (installed base settings, changes) := by
  have hagain : ∀ event ∈ hookEvents,
      (upsertHook (upserted base (hooksOf settings) event) (event.command base) event.timeout).1 =
        upserted base (hooksOf settings) event := fun event hevent =>
    upsertHook_idem ((marker_command_iff hevent).mpr hmarker)
  have hprompt := hagain userPromptSubmit (by simp [hookEvents])
  have hanswer := hagain stop (by simp [hookEvents])
  have hlookup : (installed base settings).lookup hooksKey =
      some (.obj (hooksOf (installed base settings))) := by
    rw [hooksOf_installed, installed, Entries.lookup_set, if_pos rfl]
  have hfirst : (hooksOf (installed base settings)).lookup userPromptSubmit.name =
      some (.arr (upserted base (hooksOf settings) userPromptSubmit)) := by
    rw [hooksOf_installed, Entries.lookup_set, if_neg (by decide), Entries.lookup_set, if_pos rfl]
  have hsecond : (hooksOf (installed base settings)).lookup stop.name =
      some (.arr (upserted base (hooksOf settings) stop)) := by
    rw [hooksOf_installed, Entries.lookup_set, if_pos rfl]
  simp only [installSettings, hlookup, Option.getD_some, installEvent, hfirst, bind, Except.bind,
    hprompt, Entries.set_of_lookup hfirst, hsecond, hanswer, Entries.set_of_lookup hsecond,
    Entries.set_of_lookup hlookup]
  exact ⟨_, rfl⟩

/-- What was read and written by an installation that succeeds. -/
theorem written_install {agent : Agent} {file : SettingsFile P}
    (hread : readSettings file = .ok settings)
    (h : (install agent path file (.ok base)).written = some settings') :
    settings' = installed base settings := by
  rw [install, hread] at h
  dsimp only at h
  cases hsettings : installSettings path base settings with
  | error message =>
      rw [hsettings] at h
      cases h
  | ok result =>
      rw [hsettings] at h
      obtain rfl : result.1 = settings' := Option.some.inj h
      exact installSettings_eq_ok hsettings

/-- **An installation touches only its own hooks** exactly when the executable's path counts as ours
and neither event has two of our hooks. -/
theorem installKeepsOthers_iff {agent : Agent} {file : SettingsFile P}
    (hread : readSettings file = .ok settings)
    (h : (install agent path file (.ok base)).written = some settings') :
    InstallKeepsOthers agent path base settings settings' ↔ hookMarker <:+: base ∧
      ∀ event ∈ hookEvents, (veloxHooks (entriesOf (hooksOf settings) event)).length ≤ 1 := by
  obtain rfl := written_install hread h
  have hone : ∀ event ∈ hookEvents, OneCurrentHook base (installed base settings) event ↔
      hookMarker <:+: base ∧ (veloxHooks (entriesOf (hooksOf settings) event)).length ≤ 1 := by
    intro event hevent
    rw [OneCurrentHook, entriesOf_installed hevent, upserted, one_upsertHook_iff,
      marker_command_iff hevent]
  constructor
  · intro hkeeps
    have hevents := fun event hevent => (hone event hevent).mp (hkeeps.one event hevent)
    exact ⟨(hevents stop (by simp [hookEvents])).1, fun event hevent => (hevents event hevent).2⟩
  · intro ⟨hmarker, hevents⟩
    constructor
    · exact fun event hevent => (hone event hevent).mpr ⟨hmarker, hevents event hevent⟩
    · exact ⟨_, _, entriesKept_upsertHook, entriesKept_upsertHook, rfl⟩
    · obtain ⟨changes, hagain⟩ : ∃ changes, installSettings path base (installed base settings) =
          .ok (installed base settings, changes) := installSettings_installed path hmarker
      simp only [install, readSettings, hagain]

/-! ## What an uninstallation may change -/

/-- An entry with this list of hooks. -/
def withHooks (hooks : List (Json P.Float)) : Json P.Float → Json P.Float
  | .obj entry => .obj (Entries.set entry hooksKey (.arr hooks))
  | entry => entry

/-- An entry without our hooks; it goes if it has lost all its hooks. -/
def entryWithout (entry : Json P.Float) : Option (Json P.Float) :=
  if (ownHooks entry).isEmpty then some entry
  else
    let kept := ((hookList entry).getD []).filter (!isOurs ·)
    if kept.isEmpty then none else some (withHooks kept entry)

/-- An event without our hooks; it goes if it has lost all its entries. -/
def eventWithout (event : Str × Json P.Float) : Option (Str × Json P.Float) :=
  match event.2 with
  | .arr entries =>
    if (veloxHooks entries).isEmpty then some event
    else
      let kept := entries.filterMap entryWithout
      if kept.isEmpty then none else some (event.1, .arr kept)
  | _ => some event

/-- The event has a hook of ours. -/
def hasOurs (event : Str × Json P.Float) : Bool :=
  match event.2 with
  | .arr entries => !(veloxHooks entries).isEmpty
  | _ => false

/-- The settings without our hooks; `hooks` goes if it has lost all its events. -/
def settingsWithout (settings : Members P) : Members P :=
  if (hooksOf settings).any hasOurs then
    let kept := (hooksOf settings).filterMap eventWithout
    if kept.isEmpty then settings.filter (·.1 ≠ hooksKey)
    else Entries.set settings hooksKey (.obj kept)
  else settings

/-- The file after a run that reported this. -/
def SettingsFile.after (file : SettingsFile P) (report : Report P) : SettingsFile P :=
  match report.written with
  | some settings => .holds settings
  | none => file

/-- What an uninstallation owes to the settings it reads. -/
def UninstallKeepsOthers (path : Str) (settings : Members P) : Prop :=
  SettingsFile.after (.holds settings) (uninstall path (.holds settings)) =
    .holds (settingsWithout settings)

/-- The event is a list with no entry, or has an entry whose list of hooks has none. -/
def HasEmptyList (event : Str × Json P.Float) : Prop :=
  ∃ entries, event.2 = .arr entries ∧
    (entries = [] ∨ ∃ entry ∈ entries, hookList entry = some [])

/-! ### One entry -/

theorem ownHooks_eq_nil {hooks : List (Json P.Float)} (h : hookList entry = some hooks) :
    ownHooks entry = [] ↔ hooks.filter (!isOurs ·) = hooks := by
  rw [List.filter_eq_self, List.eq_nil_iff_forall_not_mem]
  constructor
  · intro hnone hook hmem
    cases hours : isOurs hook with
    | false => rfl
    | true => exact absurd (mem_ownHooks.mpr ⟨hooks, h, hmem, hours⟩) (hnone hook)
  · intro hall hook hmem
    obtain ⟨hooks', hlist, hin, hours⟩ := mem_ownHooks.mp hmem
    obtain rfl : hooks = hooks' := Option.some.inj (h.symm.trans hlist)
    simpa [hours] using hall hook hin

theorem ownHooks_of_hookList_none (h : hookList entry = none) : ownHooks entry = [] := by
  rw [ownHooks, h]
  rfl

theorem uninstallEntry_of_none (h : hookList entry = none) : uninstallEntry entry = (some entry, false) := by
  cases entry with
  | obj members =>
      rw [hookList] at h
      rw [uninstallEntry]
      split
      · rename_i hooks hlookup
        simp only [hlookup] at h
        cases h
      · rfl
  | _ => rfl

theorem uninstallEntry_of_some {hooks : List (Json P.Float)} (h : hookList entry = some hooks) :
    uninstallEntry entry = (if (hooks.filter (!isOurs ·)).isEmpty then none
      else some (withHooks (hooks.filter (!isOurs ·)) entry),
      (hooks.filter (!isOurs ·)).length != hooks.length) := by
  cases entry with
  | obj members =>
      rw [hookList] at h
      split at h
      · rename_i hooks' hlookup
        obtain rfl : hooks' = hooks := Option.some.inj h
        simp only [uninstallEntry, hlookup, withHooks]
      · cases h
  | _ => cases h

theorem withHooks_self {hooks : List (Json P.Float)} (h : hookList entry = some hooks) :
    withHooks hooks entry = entry := by
  cases entry with
  | obj members =>
      rw [hookList] at h
      split at h
      · rename_i hooks' hlookup
        obtain rfl : hooks' = hooks := Option.some.inj h
        rw [withHooks, Entries.set_of_lookup hlookup]
      · cases h
  | _ => rfl

/-- The loop drops an entry with an empty list of hooks, and otherwise does what it should. -/
theorem uninstallEntry_eq : uninstallEntry entry =
    (if (hookList entry).any List.isEmpty then none else entryWithout entry,
      !(ownHooks entry).isEmpty) := by
  cases h : hookList entry with
  | none =>
      have hown := ownHooks_of_hookList_none h
      rw [uninstallEntry_of_none h, entryWithout, hown]
      rfl
  | some hooks =>
      rw [uninstallEntry_of_some h, entryWithout, h, Option.getD_some, Option.any_some]
      by_cases hown : ownHooks entry = []
      · rw [(ownHooks_eq_nil h).mp hown, withHooks_self h, hown]
        simp
      · have hne : hooks.isEmpty = false := by
          rw [Bool.eq_false_iff, ne_eq, List.isEmpty_iff]
          rintro rfl
          exact hown ((ownHooks_eq_nil h).mpr rfl)
        have hlength : (hooks.filter (!isOurs ·)).length ≠ hooks.length := by
          rw [ne_eq, List.filter_sublist.length_eq, ← ownHooks_eq_nil h]
          exact hown
        have hown' : (ownHooks entry).isEmpty = false := by
          rw [Bool.eq_false_iff, ne_eq, List.isEmpty_iff]
          exact hown
        rw [hne, hown', bne_iff_ne.mpr hlength]
        rfl

theorem any_isEmpty_iff {hooks : Option (List (Json P.Float))} :
    hooks.any List.isEmpty = true ↔ hooks = some [] := by
  cases hooks with
  | none => simp
  | some hooks => simp

theorem filterMap_entryWithout (h : veloxHooks entries = []) :
    entries.filterMap entryWithout = entries := by
  have hsome : ∀ entry ∈ entries, entryWithout entry = some entry := by
    intro entry hmem
    rw [veloxHooks, List.flatMap_eq_nil_iff] at h
    rw [entryWithout, h entry hmem]
    rfl
  rw [List.filterMap_congr hsome]
  exact List.filterMap_some

/-! ### One event -/

theorem uninstallEvent_snd (event : Str × Json P.Float) : (uninstallEvent event).2 = hasOurs event := by
  rw [uninstallEvent, hasOurs]
  split
  · rename_i entries _
    rw [Bool.eq_iff_iff]
    simp [uninstallEntry_eq, veloxHooks]
  · rfl

/-- Without an empty list the loop does what it should. -/
theorem uninstallEvent_fst {event : Str × Json P.Float} (h : ¬ HasEmptyList event) :
    (uninstallEvent event).1 = eventWithout event := by
  rw [uninstallEvent, eventWithout]
  split
  · rename_i entries hevent
    have hne : entries ≠ [] := fun hnil => h ⟨entries, hevent, .inl hnil⟩
    have hkept : (entries.filterMap fun entry => (uninstallEntry entry).1) =
        entries.filterMap entryWithout := by
      refine List.filterMap_congr fun entry hmem => ?_
      have hlist : hookList entry ≠ some [] := fun hnil => h ⟨entries, hevent, .inr ⟨entry, hmem, hnil⟩⟩
      rw [uninstallEntry_eq, if_neg (any_isEmpty_iff.not.mpr hlist)]
    dsimp only
    rw [hkept]
    by_cases hown : veloxHooks entries = []
    · rw [filterMap_entryWithout hown, hown, ← hevent]
      simp [hne]
    · simp [hown]
  · rfl

/-- How much an event holds. -/
def eventSize (event : Str × Json P.Float) : ℕ :=
  match event.2 with
  | .arr entries => entries.length + 1
  | _ => 1

theorem length_eq_sum (xs : List (Json P.Float)) : xs.length = (xs.map fun _ => 1).sum := by simp

theorem length_entries_le (entries : List (Json P.Float)) :
    (entries.filterMap fun entry => (uninstallEntry entry).1).length ≤
      (entries.filterMap entryWithout).length := by
  rw [length_eq_sum, length_eq_sum (entries.filterMap entryWithout)]
  refine sum_filterMap_le _ fun entry hmem => ?_
  rw [uninstallEntry_eq]
  split
  · simp
  · exact le_rfl

theorem length_entries_lt {entries : List (Json P.Float)}
    (h : ∃ entry ∈ entries, hookList entry = some []) :
    (entries.filterMap fun entry => (uninstallEntry entry).1).length <
      (entries.filterMap entryWithout).length := by
  rw [length_eq_sum, length_eq_sum (entries.filterMap entryWithout)]
  refine sum_filterMap_lt _ (fun entry hmem => ?_) ?_
  · rw [uninstallEntry_eq]
    split
    · simp
    · exact le_rfl
  · obtain ⟨entry, hmem, hempty⟩ := h
    refine ⟨entry, hmem, ?_⟩
    have hown : ownHooks entry = [] := (ownHooks_eq_nil hempty).mpr rfl
    simp [uninstallEntry_eq, hempty, entryWithout, hown]

theorem length_entriesWithout_le (event : Str × Json P.Float) {entries : List (Json P.Float)}
    (h : event.2 = .arr entries) :
    ((eventWithout event).map eventSize).getD 0 =
      if (entries.filterMap entryWithout).isEmpty ∧ entries ≠ [] then 0
      else (entries.filterMap entryWithout).length + 1 := by
  by_cases hown : veloxHooks entries = []
  · rw [filterMap_entryWithout hown]
    simp [eventWithout, h, hown, eventSize]
  · have hne : entries ≠ [] := by
      rintro rfl
      exact hown rfl
    by_cases hkept : entries.filterMap entryWithout = []
    · simp [eventWithout, h, hown, hkept, hne]
    · simp [eventWithout, h, hown, hkept, eventSize]

/-- The loop over the entries keeps no more than it should, and less where there is an empty list. -/
theorem size_uninstallEvent (event : Str × Json P.Float) :
    ((uninstallEvent event).1.map eventSize).getD 0 ≤ ((eventWithout event).map eventSize).getD 0 ∧
      (HasEmptyList event →
        ((uninstallEvent event).1.map eventSize).getD 0 <
          ((eventWithout event).map eventSize).getD 0) := by
  by_cases hlist : ∃ entries, event.2 = .arr entries
  · obtain ⟨entries, hevent⟩ := hlist
    have hsize : ((uninstallEvent event).1.map eventSize).getD 0 =
        if (entries.filterMap fun entry => (uninstallEntry entry).1).isEmpty then 0
        else (entries.filterMap fun entry => (uninstallEntry entry).1).length + 1 := by
      simp only [uninstallEvent, hevent]
      split
      · rfl
      · rfl
    have hle := length_entries_le entries
    rw [hsize, length_entriesWithout_le event hevent]
    simp only [List.isEmpty_iff, ← List.length_eq_zero_iff, ne_eq]
    constructor
    · split_ifs <;> omega
    · intro ⟨entries', hevent', hempty⟩
      obtain rfl : entries = entries' := Json.arr.inj (hevent.symm.trans hevent')
      rcases hempty with rfl | hempty
      · simp
      · have hlt := length_entries_lt hempty
        split_ifs <;> omega
  · have hcode : (uninstallEvent event).1 = eventWithout event := by
      exact uninstallEvent_fst fun ⟨entries, hevent, _⟩ => hlist ⟨entries, hevent⟩
    rw [hcode]
    exact ⟨le_rfl, fun ⟨entries, hevent, _⟩ => absurd ⟨entries, hevent⟩ hlist⟩

/-! ### The settings -/

theorem removed_eq_nil : (hooks.filter fun event => (uninstallEvent event).2).map Prod.fst = [] ↔
    hooks.any hasOurs = false := by
  simp [uninstallEvent_snd]

/-- Without a hook of ours nothing is written, otherwise what the loop has left. -/
theorem after_uninstall (path : Str) (settings : Members P) :
    SettingsFile.after (.holds settings) (uninstall path (.holds settings)) = .holds
      (if (hooksOf settings).any hasOurs then
        let kept := (hooksOf settings).filterMap fun event => (uninstallEvent event).1
        if kept.isEmpty then settings.filter (·.1 ≠ hooksKey)
        else Entries.set settings hooksKey (.obj kept)
      else settings) := by
  by_cases hobject : ∃ hooks, settings.lookup hooksKey = some (.obj hooks)
  · obtain ⟨hooks, hlookup⟩ := hobject
    have hhooks : hooksOf settings = hooks := by simp only [hooksOf, hlookup]
    rw [hhooks]
    cases hours : hooks.any hasOurs with
    | false =>
        have hnone := removed_eq_nil.mpr hours
        simp only [uninstall, uninstallSettings, hlookup, hnone, SettingsFile.after,
          List.isEmpty_nil, if_true, Bool.false_eq_true, if_false]
    | true =>
        have hsome : ((hooks.filter fun event => (uninstallEvent event).2).map Prod.fst).isEmpty =
            false := by
          rw [Bool.eq_false_iff, ne_eq, List.isEmpty_iff, removed_eq_nil, hours]
          decide
        simp only [uninstall, uninstallSettings, hlookup, hsome, SettingsFile.after,
          Bool.false_eq_true, if_false, if_true]
  · have hnone : uninstallSettings settings = (settings, []) := by
      rw [uninstallSettings]
      split
      · rename_i hooks hlookup
        exact absurd ⟨hooks, hlookup⟩ hobject
      · rfl
    have hhooks : hooksOf settings = [] := by
      rw [hooksOf]
      split
      · rename_i hooks hlookup
        exact absurd ⟨hooks, hlookup⟩ hobject
      · rfl
    simp [uninstall, hnone, hhooks, SettingsFile.after]

theorem lookup_filter_ne (settings : Members P) :
    (settings.filter (·.1 ≠ hooksKey)).lookup hooksKey = none := by
  rw [Fallible.lookup_none_iff]
  simp

/-- The events that are kept can be read off the settings. -/
theorem hooksOf_kept (kept settings : Members P) :
    hooksOf (if kept.isEmpty then settings.filter (·.1 ≠ hooksKey)
      else Entries.set settings hooksKey (.obj kept)) = kept := by
  by_cases hkept : kept = []
  · rw [hkept, List.isEmpty_nil, if_pos rfl, hooksOf, lookup_filter_ne]
  · rw [if_neg (by simpa using hkept), hooksOf, Entries.lookup_set, if_pos rfl]

theorem ownHooks_entryWithout {entry' : Json P.Float} (h : entryWithout entry = some entry') :
    ownHooks entry' = [] := by
  rw [entryWithout] at h
  by_cases hown : ownHooks entry = []
  · rw [if_pos (List.isEmpty_iff.mpr hown)] at h
    exact Option.some.inj h ▸ hown
  · rw [if_neg (mt List.isEmpty_iff.mp hown)] at h
    by_cases hkept : (((hookList entry).getD []).filter (!isOurs ·)).isEmpty
    · rw [if_pos hkept] at h
      cases h
    · rw [if_neg hkept] at h
      obtain rfl := Option.some.inj h
      cases hlist : hookList (withHooks (((hookList entry).getD []).filter (!isOurs ·)) entry) with
      | none => exact ownHooks_of_hookList_none hlist
      | some hooks =>
          rw [ownHooks_eq_nil hlist]
          cases entry with
          | obj members =>
              rw [withHooks, hookList, Entries.lookup_set, if_pos rfl] at hlist
              obtain rfl := Option.some.inj hlist
              rw [List.filter_filter]
              simp
          | _ => cases hlist

/-- No hook of ours is left. -/
theorem hasOurs_settingsWithout (settings : Members P) :
    ∀ event ∈ hooksOf (settingsWithout settings), hasOurs event = false := by
  intro event hmem
  rw [settingsWithout] at hmem
  by_cases hours : (hooksOf settings).any hasOurs = true
  · rw [if_pos hours, hooksOf_kept] at hmem
    obtain ⟨event', -, hevent⟩ := List.mem_filterMap.mp hmem
    rw [eventWithout] at hevent
    split at hevent
    · rename_i entries hlist
      by_cases hown : veloxHooks entries = []
      · rw [if_pos (List.isEmpty_iff.mpr hown)] at hevent
        obtain rfl := Option.some.inj hevent
        simp [hasOurs, hlist, hown]
      · rw [if_neg (mt List.isEmpty_iff.mp hown)] at hevent
        by_cases hkept : (entries.filterMap entryWithout).isEmpty
        · rw [if_pos hkept] at hevent
          cases hevent
        · rw [if_neg hkept] at hevent
          obtain rfl := Option.some.inj hevent
          have hnone : veloxHooks (entries.filterMap entryWithout) = [] := by
            rw [veloxHooks, List.flatMap_eq_nil_iff]
            intro entry hentry
            obtain ⟨entry', -, hwithout⟩ := List.mem_filterMap.mp hentry
            exact ownHooks_entryWithout hwithout
          simp [hasOurs, hnone]
    · rename_i hlist
      obtain rfl := Option.some.inj hevent
      rw [hasOurs]
      split
      · rename_i entries hentries
        exact absurd hentries (hlist entries)
      · rfl
  · rw [if_neg hours] at hmem
    rw [List.any_eq_true, not_exists] at hours
    exact Bool.eq_false_iff.mpr fun hevent => hours event ⟨hmem, hevent⟩

/-- **An uninstallation touches only its own hooks** exactly when there is none, or no list of entries
or of hooks in an entry was empty before. -/
theorem uninstallKeepsOthers_iff (path : Str) (settings : Members P) :
    UninstallKeepsOthers path settings ↔
      (∀ event ∈ hooksOf settings, hasOurs event = false) ∨
        ∀ event ∈ hooksOf settings, ¬ HasEmptyList event := by
  rw [UninstallKeepsOthers, after_uninstall, settingsWithout]
  cases hours : (hooksOf settings).any hasOurs with
  | false =>
      refine iff_of_true rfl (.inl fun event hmem => ?_)
      rw [List.any_eq_false] at hours
      exact Bool.eq_false_iff.mpr (hours event hmem)
  | true =>
      have hnot : ¬ ∀ event ∈ hooksOf settings, hasOurs event = false := by
        intro hall
        obtain ⟨event, hmem, hevent⟩ := List.any_eq_true.mp hours
        rw [hall event hmem] at hevent
        cases hevent
      rw [or_iff_right hnot, if_pos rfl, if_pos rfl, SettingsFile.holds.injEq]
      constructor
      · intro heq event hmem hempty
        have hkept := congrArg hooksOf heq
        rw [hooksOf_kept, hooksOf_kept] at hkept
        have hlt := sum_filterMap_lt eventSize
          (p := fun event : Str × Json P.Float => (uninstallEvent event).1)
          (fun event _ => (size_uninstallEvent event).1)
          ⟨event, hmem, (size_uninstallEvent event).2 hempty⟩
        rw [hkept] at hlt
        exact absurd hlt (lt_irrefl _)
      · intro hall
        have hkept : ((hooksOf settings).filterMap fun event => (uninstallEvent event).1) =
            (hooksOf settings).filterMap eventWithout :=
          List.filterMap_congr fun event hmem => uninstallEvent_fst (hall event hmem)
        rw [hkept]

/-- **Hook installation and removal touch only their own hooks**, exactly under these conditions, and
the settings a removal is compared with have none of our hooks. -/
theorem hooks_touch_only_their_own (P : Platform) :
    (∀ (agent : Agent) (path base : Str) (file : SettingsFile P) (settings settings' : Members P),
      readSettings file = .ok settings →
      (install agent path file (.ok base)).written = some settings' →
      (InstallKeepsOthers agent path base settings settings' ↔ hookMarker <:+: base ∧
        ∀ event ∈ hookEvents, (veloxHooks (entriesOf (hooksOf settings) event)).length ≤ 1)) ∧
    (∀ (path : Str) (settings : Members P),
      UninstallKeepsOthers path settings ↔
        (∀ event ∈ hooksOf settings, hasOurs event = false) ∨
          ∀ event ∈ hooksOf settings, ¬ HasEmptyList event) ∧
    ∀ (settings : Members P), ∀ event ∈ hooksOf (settingsWithout settings), hasOurs event = false :=
  ⟨fun _ _ _ _ _ _ hread h => installKeepsOthers_iff hread h, uninstallKeepsOthers_iff,
    hasOurs_settingsWithout⟩

/-- Settings a person has written, with the hook of another tool before a recorder in one entry, and
these events last. -/
def alongside (recorder : Json Platform.ascii.Float) (events : Members Platform.ascii) :
    Members Platform.ascii :=
  [("model".toList, .str "opus".toList),
    (hooksKey, .obj ([("PreToolUse".toList, .arr [.obj [("matcher".toList, .str "Bash".toList),
        (hooksKey, .arr [freshHook "check-command".toList 5])]]),
      (stop.name, .arr [.obj [(hooksKey, .arr [freshHook "play-sound".toList 1, recorder])]])] ++
      events)),
    ("theme".toList, .null)]

/-- An installation from a new path points the old recorder to it and adds the other event; what it
has written is as it should be, and so is what an uninstallation leaves of it. -/
theorem install_alongside :
    let old := alongside (freshHook "/old/velox-hook record".toList 3) []
    let new := alongside (freshHook "/a/velox-hook record".toList 15)
      [(userPromptSubmit.name, .arr [freshEntry "/a/velox-hook retrieve".toList 10])]
    (install .claude [] (.holds old) (.ok "/a/velox-hook".toList)).written = some new ∧
      InstallKeepsOthers .claude [] "/a/velox-hook".toList old new ∧ UninstallKeepsOthers [] new := by
  intro old new
  have hwritten : (install .claude [] (.holds old) (.ok "/a/velox-hook".toList)).written =
      some new := rfl
  have hcounts : (hookEvents.map fun event =>
      (veloxHooks (entriesOf (hooksOf old) event)).length) = [0, 1] := rfl
  refine ⟨hwritten, ((hooks_touch_only_their_own Platform.ascii).1 _ _ _ _ old new rfl hwritten).mpr
    ⟨by decide, fun event hevent => ?_⟩,
    ((hooks_touch_only_their_own Platform.ascii).2.1 [] new).mpr (.inr fun event hmem => ?_)⟩
  · have hcount := List.mem_map_of_mem (f := fun event =>
      (veloxHooks (entriesOf (hooksOf old) event)).length) hevent
    rw [hcounts] at hcount
    simp only [List.mem_cons, List.not_mem_nil, or_false] at hcount
    omega
  · change event ∈ [_, _, _] at hmem
    simp only [List.mem_cons, List.not_mem_nil, or_false] at hmem
    rintro ⟨entries, hevent, hempty⟩
    -- each event is a list of one entry, which has a hook
    rcases hmem with rfl | rfl | rfl
    all_goals
      obtain rfl := Json.arr.inj hevent
      simp only [List.cons_ne_nil, List.mem_singleton, exists_eq_left, false_or] at hempty
      cases hempty

/-- Two recorders in one entry. -/
def twiceInstalled : Members Platform.ascii :=
  [(hooksKey, .obj [(stop.name, .arr [.obj [(hooksKey, .arr
    [freshHook "/a/velox-hook record".toList 15, freshHook "/b/velox-hook record".toList 15])]])])]

/-- A recorder beside an event without entries. -/
def besideEmpty : Members Platform.ascii :=
  [(hooksKey, .obj [("SessionStart".toList, .arr []), (stop.name, .arr
    [freshEntry "/a/velox-hook record".toList 15])])]

/-- The second of two recorders stays behind an installation, and an uninstallation removes an event
that had no entries. -/
theorem hooks_touch_others :
    (∃ settings', (install .claude [] (.holds twiceInstalled)
        (.ok "/a/velox-hook".toList)).written = some settings' ∧
      ¬ InstallKeepsOthers .claude [] "/a/velox-hook".toList twiceInstalled settings') ∧
    ¬ UninstallKeepsOthers [] besideEmpty := by
  constructor
  · have hsettings : ∃ settings', (install .claude [] (.holds twiceInstalled)
        (.ok "/a/velox-hook".toList)).written = some settings' := ⟨_, rfl⟩
    obtain ⟨settings', h⟩ := hsettings
    refine ⟨settings', h, fun hkeeps => ?_⟩
    have hone := ((installKeepsOthers_iff rfl h).mp hkeeps).2 stop (by simp [hookEvents])
    have htwo : (veloxHooks (entriesOf (hooksOf twiceInstalled) stop)).length = 2 := by rfl
    omega
  · rw [uninstallKeepsOthers_iff]
    rintro (hnone | hall)
    · have hours : hasOurs (stop.name, .arr [freshEntry (P := Platform.ascii)
          "/a/velox-hook record".toList 15]) = true := by rfl
      rw [hnone _ (List.mem_cons_of_mem _ List.mem_cons_self)] at hours
      cases hours
    · exact hall ("SessionStart".toList, .arr []) List.mem_cons_self ⟨[], rfl, .inl rfl⟩

end VeloxRag.HookSettings
