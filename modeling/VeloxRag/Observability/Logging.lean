import VeloxRag.Ingestion.ObjectKeys
import VeloxRag.Lib.Entries

/-!
# Safe log records

A log record is replaced by one of which every field is made anew: the message is one of the names of
events, and of the other fields those with an allowed key are kept, each by the rule of its key.  What
the record holds is any Python object; the sanitizer only looks at its type and at the keys it asks
for.

## Main definitions

* `Heap`, `View` — the objects, and what the sanitizer sees of them.
* `Rule`, `ruleOf` — the rule of a key.
* `sanitizeMapping`, `sanitizeMember` — a value under a key, with its nested mappings.
* `exceptionTypes` — the names of the types of an exception and of those it groups.
* `sanitizeLogRecord` — the record that is made.
-/

namespace VeloxRag.Observability

open Lib Ingestion

/-! ## Tables -/

/-- `_EVENT_NAMES`. -/
def eventNames : List Str :=
  ["upload.completed", "upload.failed", "job.state.changed", "job.lease.recovered",
    "ingestion.stage.completed", "ingestion.stage.failed", "provider.request.completed",
    "provider.retry.scheduled", "qdrant.upsert.completed", "qdrant.search.completed",
    "cleanup.action.completed"].map String.toList

/-- `_ERROR_CODES`. -/
def errorCodes : List Str :=
  ["OTHER", "UPLOAD_REJECTED", "UPLOAD_FAILED", "JOB_FAILED", "JOB_LEASE_LOST", "STAGE_FAILED",
    "PARSE_FAILED", "CHUNK_FAILED", "PROVIDER_ERROR", "PROVIDER_RATE_LIMITED", "PROVIDER_TIMEOUT",
    "QDRANT_UPSERT_FAILED", "QDRANT_SEARCH_FAILED", "VALIDATION_FAILED", "ACTIVATION_FAILED",
    "LEASE_LOST"].map String.toList

/-- The names of `_BUILTIN_EXCEPTION_TYPES`. -/
def builtinExceptionTypes : List Str :=
  ["BaseException", "BaseExceptionGroup", "Exception", "ExceptionGroup", "ArithmeticError",
    "AssertionError", "AttributeError", "BlockingIOError", "BufferError", "BytesWarning",
    "ChildProcessError", "DeprecationWarning", "EOFError", "EncodingWarning", "FloatingPointError",
    "FutureWarning", "GeneratorExit", "ImportError", "ImportWarning", "IndentationError",
    "IndexError", "KeyError", "KeyboardInterrupt", "LookupError", "MemoryError",
    "ModuleNotFoundError", "NameError", "NotImplementedError", "OSError", "OverflowError",
    "BrokenPipeError", "ConnectionError", "ConnectionAbortedError", "ConnectionRefusedError",
    "ConnectionResetError", "FileExistsError", "FileNotFoundError", "InterruptedError",
    "IsADirectoryError", "NotADirectoryError", "PermissionError", "ProcessLookupError",
    "TimeoutError", "PendingDeprecationWarning", "RecursionError", "ReferenceError",
    "ResourceWarning", "RuntimeError", "RuntimeWarning", "StopAsyncIteration", "StopIteration",
    "SyntaxError", "SyntaxWarning", "SystemError", "SystemExit", "TabError", "TypeError",
    "UnboundLocalError", "UnicodeDecodeError", "UnicodeEncodeError", "UnicodeError",
    "UnicodeTranslateError", "UnicodeWarning", "UserWarning", "ValueError", "Warning",
    "ZeroDivisionError"].map String.toList

/-- `_CONTEXT_ID_KEYS`. -/
def contextIdKeys : List Str :=
  ["request_id", "knowledge_base_id", "document_id", "version_id", "job_id",
    "generation_id"].map String.toList

/-- `_ENUM_VALUES`. -/
def enumValues : List (Str × List Str) :=
  [("capability", ["embedding", "retrieval", "ingestion"]),
    ("operation", [
      "upload", "job", "parse", "chunk", "embed_index", "validate", "activate", "provider_request",
      "qdrant_upsert", "qdrant_search", "orphan_cleanup", "ingest_document", "rebuild_generation"]),
    ("outcome", ["succeeded", "rejected", "failed", "cancelled"]),
    ("phase", ["temporary", "canonical", "minio", "qdrant"]),
    ("provider_type", ["openai_compatible", "openrouter", "vendor_specific"]),
    ("stage", ["parse", "chunk", "embed_index", "validate", "activate"]),
    ("state", ["queued", "running", "retry_wait", "succeeded", "failed", "cancelled"]),
    ("status", [
      "queued", "running", "retry_wait", "succeeded", "rejected", "failed", "rate_limited",
      "timeout", "cancelled"])].map fun entry => (entry.1.toList, entry.2.map String.toList)

/-- `_BOOLEAN_KEYS`. -/
def booleanKeys : List Str :=
  ["degraded", "retryable", "recovered"].map String.toList

/-- `_INTEGER_KEYS`. -/
def integerKeys : List Str :=
  ["attempt", "batch_count", "byte_count", "candidate_count", "character_count", "chunk_count",
    "cost_micros", "count", "input_tokens", "latency_ms", "output_tokens", "point_count",
    "result_count", "retry_count", "visibility_drop_count"].map String.toList

/-- `_FLOAT_KEYS`. -/
def floatKeys : List Str :=
  ["duration_seconds", "latency_seconds"].map String.toList

/-- `_NESTED_KEYS`. -/
def nestedKeys : List Str :=
  ["context", "details", "metrics"].map String.toList

/-- `_SAFE_EXTRA_KEYS`. -/
def safeExtraKeys : List Str :=
  ["attempt", "batch_count", "byte_count", "candidate_count", "capability", "character_count",
    "chunk_count", "context", "cost_micros", "count", "degraded", "details", "document_id",
    "duration_seconds", "error_code", "event", "exception_type", "exception_types",
    "generation_id", "input_tokens", "job_id", "knowledge_base_id", "latency_ms",
    "latency_seconds", "metrics", "operation", "outcome", "output_tokens", "phase", "point_count",
    "provider_type", "recovered", "request_id", "result_count", "retry_count", "retryable",
    "stage", "state", "status", "version_id", "visibility_drop_count"].map String.toList

theorem nodup_safeExtraKeys : safeExtraKeys.Nodup := by decide +kernel

def maxRequestIdLength : ℕ := 128
def maxExceptionTypes : ℕ := 32
def maxSanitizeDepth : ℕ := 8
def maxCounterValue : ℤ := 2 ^ 63 - 1

/-! ## Objects -/

/-- What a step comes to that may raise and may find nothing. -/
inductive Lookup (α : Type)
  | raises
  | missing
  | found (a : α)

/-- What is used of `float`; `float` of a large integer raises. -/
structure PyFloat (F : Type) where
  ofInt : ℤ → Option F
  isFinite : F → Bool
  nonneg : F → Bool
  zero : F

/-- A Python object, by its exact type.  A dictionary is given by `get`, which may raise where a key
that compares itself is met.  The class of another object may answer for `int` or `float`, or for
`list` or `tuple`, when it is looked for in a set of types. -/
inductive View (V F : Type)
  | none
  | str (s : Str)
  | uuid (n : ℕ) (h : n < 2 ^ 128)
  | bool (b : Bool)
  | int (n : ℤ)
  | float (x : F)
  | list (items : List V)
  | tuple (items : List V)
  | mapping (get : Str → Lookup V)
  | other (number : Lookup F) (members : Lookup (List V))

/-- The objects, which may refer to each other in any way. -/
structure Heap (V F : Type) where
  look : V → View V F
  /-- `id`. -/
  identity : V → ℕ
  /-- `isinstance(value, BaseException)`, `none` where that raises. -/
  isException : V → Option Bool
  /-- The type, if it is in the table. -/
  builtinType : V → Option { name : Str // name ∈ builtinExceptionTypes }
  /-- `_exception_children`, `none` where that raises. -/
  exceptionChildren : V → Option (List V)

variable {V F : Type} (floats : PyFloat F) (heap : Heap V F)

/-! ## Texts -/

def isRequestIdChar (c : Char) : Bool :=
  decide ('A' ≤ c ∧ c ≤ 'Z') || decide ('a' ≤ c ∧ c ≤ 'z') || decide ('0' ≤ c ∧ c ≤ '9')
    || decide (c ∈ ['.', '_', ':', '-'])

/-- `_valid_request_id`, of a text. -/
def validRequestId (s : Str) : Bool :=
  decide (0 < s.length) && decide (s.length ≤ maxRequestIdLength) && s.all isRequestIdChar

/-- `_normalized_uuid`. -/
def normalizedUuid : View V F → Option Str
  | .uuid n _ => some (uuidText n)
  | .str s => if s.length ≠ 36 then none else (uuidOfText s).map fun _ => s
  | _ => none

def redactedLogEvent : Str := "redacted_log_event".toList

/-- `_sanitize_exception_name`. -/
def sanitizeExceptionName : View V F → Str
  | .str s => if s ∈ builtinExceptionTypes then s else "Exception".toList
  | _ => "Exception".toList

/-! ## Values -/

/-- What the sanitizer makes. -/
inductive Safe (F : Type)
  | null
  | str (s : Str)
  | bool (b : Bool)
  | int (n : ℤ)
  | float (x : F)
  | tuple (names : List Str)
  | mapping (members : List (Str × Safe F))

/-- What the checks of `_sanitize_member` do with a key. -/
inductive Rule
  | requestId
  | uuid
  | event
  | errorCode
  | exceptionType
  | exceptionTypes
  | enum (allowed : List Str)
  | boolean
  | integer
  | float
  | nested
  | drop
deriving DecidableEq

/-- The branch of `_sanitize_member` for a key. -/
def ruleOf (key : Str) : Rule :=
  if key = "request_id".toList then .requestId
  else if key ∈ contextIdKeys then .uuid
  else if key = "event".toList then .event
  else if key = "error_code".toList then .errorCode
  else if key = "exception_type".toList then .exceptionType
  else if key = "exception_types".toList then .exceptionTypes
  else match enumValues.lookup key with
  | some allowed => .enum allowed
  | none =>
      if key ∈ booleanKeys then .boolean
      else if key ∈ integerKeys then .integer
      else if key ∈ floatKeys then .float
      else if key ∈ nestedKeys then .nested
      else .drop

/-- A text or nothing. -/
def Lookup.ofText : Option Str → Lookup (Safe F)
  | some s => .found (.str s)
  | none => .missing

/-- `_sanitize_exception_names`. -/
def sanitizeExceptionNames : View V F → Lookup (Safe F)
  | .list items | .tuple items | .other _ (.found items) =>
      .found (.tuple ((items.take maxExceptionTypes).map fun item =>
        sanitizeExceptionName (heap.look item)))
  | .other _ .raises => .raises
  | _ => .missing

/-- A number under a key of `_FLOAT_KEYS`. -/
def sanitizeFloat : View V F → Lookup (Safe F)
  | .int n =>
      match floats.ofInt n with
      | none => .raises
      | some numeric => accept numeric
  | .float numeric | .other (.found numeric) _ => accept numeric
  | .other .raises _ => .raises
  | _ => .missing
where
  accept (numeric : F) : Lookup (Safe F) :=
    if floats.isFinite numeric ∧ floats.nonneg numeric then .found (.float numeric) else .missing

/-- The rules that look at nothing below the value. -/
def sanitizeFlat (rule : Rule) (value : View V F) : Lookup (Safe F) :=
  match rule with
  | .requestId =>
      match value with
      | .str s => if validRequestId s then .found (.str s) else .missing
      | _ => .missing
  | .uuid => Lookup.ofText (normalizedUuid value)
  | .event =>
      match value with
      | .str s => .found (.str (if s ∈ eventNames then s else redactedLogEvent))
      | _ => .found (.str redactedLogEvent)
  | .errorCode =>
      match value with
      | .str s => .found (.str (if s ∈ errorCodes then s else "OTHER".toList))
      | _ => .found (.str "OTHER".toList)
  | .exceptionType => .found (.str (sanitizeExceptionName value))
  | .exceptionTypes => sanitizeExceptionNames heap value
  | .enum allowed =>
      match value with
      | .str s => if s ∈ allowed then .found (.str s) else .missing
      | _ => .missing
  | .boolean =>
      match value with
      | .bool b => .found (.bool b)
      | _ => .missing
  | .integer =>
      match value with
      | .int n => if 0 ≤ n ∧ n ≤ maxCounterValue then .found (.int n) else .missing
      | _ => .missing
  | .float => sanitizeFloat floats value
  | .nested | .drop => .missing

/-- The loop of `_sanitize_mapping` over the keys, `none` where it raises. -/
def sanitizeKeys (member : Str → V → Lookup (Safe F)) (get : Str → Lookup V) :
    List Str → Option (List (Str × Safe F))
  | [] => some []
  | key :: keys =>
      match get key with
      | .raises => none
      | .missing => sanitizeKeys member get keys
      | .found value =>
          match member key value with
          | .raises => none
          | .missing => sanitizeKeys member get keys
          | .found safe => (sanitizeKeys member get keys).map ((key, safe) :: ·)

mutual

/-- `_sanitize_mapping`. -/
def sanitizeMapping (value : V) (depth : ℕ) : Lookup (Safe F) :=
  match heap.look value with
  | .mapping get =>
      if maxSanitizeDepth < depth then .missing
      else
        match sanitizeKeys (fun key member => sanitizeMember key member depth) get safeExtraKeys with
        | none => .raises
        | some members => .found (.mapping members)
  | _ => .missing
termination_by 2 * (maxSanitizeDepth + 1 - depth) + 1

/-- `_sanitize_member`. -/
def sanitizeMember (key : Str) (value : V) (depth : ℕ) : Lookup (Safe F) :=
  if maxSanitizeDepth < depth then .missing
  else if ruleOf key = .nested then sanitizeMapping value (depth + 1)
  else sanitizeFlat floats heap (ruleOf key) (heap.look value)
termination_by 2 * (maxSanitizeDepth + 1 - depth)

end

/-! ## Exceptions -/

/-- `_safe_exception_type`. -/
def safeExceptionType (error : V) : Str :=
  match heap.builtinType error with
  | some name => name
  | none => "Exception".toList

/-- The children that are pushed, the first on top. -/
def pushedChildren : List V → Option (List V)
  | [] => some []
  | child :: children => do
      let exception ← heap.isException child
      let rest ← pushedChildren children
      pure (if exception then child :: rest else rest)

/-- The loop of `_exception_types`, over the stack of what is pending. -/
def exceptionLoop (pending : List V) (visited : List ℕ) (collected : List Str) : Option (List Str) :=
  match pending with
  | [] => some collected
  | current :: pending =>
      if maxExceptionTypes ≤ collected.length then some collected
      else if heap.identity current ∈ visited then exceptionLoop pending visited collected
      else
        match heap.exceptionChildren current with
        | none => none
        | some children =>
            match pushedChildren heap
                (children.take (maxExceptionTypes - (collected.length + 1))) with
            | none => none
            | some pushed =>
                exceptionLoop (pushed ++ pending) (heap.identity current :: visited)
                  (collected ++ [safeExceptionType heap current])
termination_by (maxExceptionTypes - collected.length, pending.length)

/-- `_exception_types`. -/
def exceptionTypes (excInfo : View V F) : Option (List Str) :=
  match excInfo with
  | .tuple [_, root, _] => do
      if ← heap.isException root then exceptionLoop heap [root] [] [] else some []
  | _ => some []

/-! ## Records -/

/-- `time.time()` and the milliseconds of it. -/
structure Clock (F : Type) where
  created : F
  msecs : F

def levelName : ℕ → Str
  | 10 => "DEBUG".toList
  | 20 => "INFO".toList
  | 30 => "WARNING".toList
  | 40 => "ERROR".toList
  | _ => "CRITICAL".toList

/-- `safe_message`. -/
def safeMessage : View V F → Str
  | .str s => if s ∈ eventNames then s else redactedLogEvent
  | _ => redactedLogEvent

/-- `safe_level`. -/
def safeLevel : View V F → ℕ
  | .int n => if n ∈ ([10, 20, 30, 40, 50] : List ℤ) then n.toNat else 20
  | _ => 20

/-- `_safe_record_values`, of the message and the level that are safe. -/
def safeRecordValues (clock : Clock F) (message : Str) (level : ℕ) : List (Str × Safe F) :=
  [("name".toList, .str "rag_service".toList), ("msg".toList, .str message), ("args".toList, .tuple []),
    ("levelname".toList, .str (levelName level)), ("levelno".toList, .int level),
    ("pathname".toList, .str "redacted".toList), ("filename".toList, .str "redacted".toList),
    ("module".toList, .str "redacted".toList), ("exc_info".toList, .null), ("exc_text".toList, .null),
    ("stack_info".toList, .null), ("lineno".toList, .int 0), ("funcName".toList, .str "redacted".toList),
    ("created".toList, .float clock.created), ("msecs".toList, .float clock.msecs),
    ("relativeCreated".toList, .float floats.zero), ("thread".toList, .int 0),
    ("threadName".toList, .str "worker".toList), ("processName".toList, .str "service".toList),
    ("process".toList, .int 0), ("taskName".toList, .str "task".toList), ("message".toList, .str message)]

/-- A log record: an object of another class, or one of the class, with its `__dict__`. -/
inductive LogRecord (V : Type)
  | foreign
  | exact (data : V)

/-- The `get` of the `__dict__` of a record that is read. -/
def LogRecord.get? : LogRecord V → Option (Str → Lookup V)
  | .foreign => none
  | .exact data =>
      match heap.look data with
      | .mapping get => some get
      | _ => none

/-- `source.get(key)`, `none` where it raises. -/
def getOrNone (get : Str → Lookup V) (key : Str) : Option (View V F) :=
  match get key with
  | .raises => none
  | .missing => some .none
  | .found value => some (heap.look value)

/-- The loop that reads the extra fields. -/
def rawExtra (get : Str → Lookup V) : List Str → Option (List (Str × V))
  | [] => some []
  | key :: keys =>
      match get key with
      | .raises => none
      | .missing => rawExtra get keys
      | .found value => (rawExtra get keys).map ((key, value) :: ·)

/-- The loop that sanitizes them. -/
def sanitizeItems (member : Str → V → Lookup (Safe F)) :
    List (Str × V) → Option (List (Str × Safe F))
  | [] => some []
  | (key, value) :: items =>
      match member key value with
      | .raises => none
      | .missing => sanitizeItems member items
      | .found safe => (sanitizeItems member items).map ((key, safe) :: ·)

/-- The fields of a record that is read, `none` where something raises. -/
def safeValues (clock : Clock F) (get : Str → Lookup V) : Option (List (Str × Safe F)) := do
  let rawMessage ← getOrNone heap get "msg".toList
  let rawLevel ← getOrNone heap get "levelno".toList
  let rawExcInfo ← getOrNone heap get "exc_info".toList
  let raw ← rawExtra get safeExtraKeys
  let extra ← sanitizeItems (fun key value => sanitizeMember floats heap key value 0) raw
  let derived ← exceptionTypes heap rawExcInfo
  let values := Entries.setAll (safeRecordValues floats clock (safeMessage rawMessage)
    (safeLevel rawLevel)) extra
  pure (if derived = [] then values
    else Entries.set values "exception_types".toList (.tuple derived))

/-- `sanitize_log_record`: the `__dict__` of the new record. -/
def sanitizeLogRecord (clock : Clock F) (record : LogRecord V) : List (Str × Safe F) :=
  let safeBase := safeRecordValues floats clock redactedLogEvent 20
  match record.get? heap with
  | none => safeBase
  | some get =>
      match safeValues floats heap clock get with
      | none => safeBase
      | some values => values

end VeloxRag.Observability
