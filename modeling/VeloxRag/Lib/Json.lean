import Mathlib

/-!
# JSON as Python writes and reads it

`Json.dumps` is `json.dumps` without ASCII escapes and with the compact separators,
`Json.loads` is `json.loads` on text.  Objects keep the order of their members; keys are
unique, since a Python dictionary has no two entries with one key, and reading an object
with a repeated key keeps the last value.

Floating-point numbers are a parameter: `FloatOps` has the operations the reader and the
writer use, and `FloatLaws` what they rely on, that the representation of a finite number
is a number literal with a fraction or an exponent and reads back as that number.

## Main definitions

* `Json`, `FloatOps`, `FloatLaws` — values and the parameter.
* `Json.dumps` — writing, which fails on a number that has no literal.
* `Json.loads` — reading.
* `Json.sorted`, `Json.pyEq` — members sorted by key, and equality as Python has it.
-/

namespace VeloxRag.Lib

/-- A JSON value over a type of floating-point numbers. -/
inductive Json (F : Type)
  | null
  | bool (b : Bool)
  | int (n : ℤ)
  | float (f : F)
  | str (s : List Char)
  | arr (items : List (Json F))
  | obj (members : List (List Char × Json F))

/-- The members of an object. -/
abbrev JsonMembers (F : Type) := List (List Char × Json F)

/-- What reading and writing JSON uses of floating-point numbers. -/
structure FloatOps (F : Type) where
  isFinite : F → Bool
  /-- `float.__repr__`. -/
  repr : F → List Char
  /-- `float(text)` of a number literal. -/
  ofLiteral : List Char → F
  nan : F
  infinity : F
  negInfinity : F
  eq : F → F → Bool
  eqInt : F → ℤ → Bool

/-! ## Number literals -/

def isDigit (c : Char) : Bool := decide ('0' ≤ c ∧ c ≤ '9')

/-- The integer part of a literal: an optional sign and digits without a leading zero. -/
def IsInteger (s : List Char) : Prop :=
  ∃ sign digits, s = sign ++ digits ∧ (sign = [] ∨ sign = ['-']) ∧ digits ≠ [] ∧
    (∀ c ∈ digits, isDigit c = true) ∧ (digits = ['0'] ∨ digits.head? ≠ some '0')

/-- The fraction of a literal, empty or a point and digits. -/
def IsFraction (s : List Char) : Prop :=
  s = [] ∨ ∃ digits, s = '.' :: digits ∧ digits ≠ [] ∧ ∀ c ∈ digits, isDigit c = true

/-- The exponent of a literal, empty or `e`, an optional sign and digits. -/
def IsExponent (s : List Char) : Prop :=
  s = [] ∨ ∃ e sign digits, s = e :: (sign ++ digits) ∧ (e = 'e' ∨ e = 'E') ∧
    (sign = [] ∨ sign = ['-'] ∨ sign = ['+']) ∧ digits ≠ [] ∧ ∀ c ∈ digits, isDigit c = true

/-- What the reader and the writer rely on. -/
structure FloatLaws {F : Type} (ops : FloatOps F) : Prop where
  repr_literal : ∀ f, ops.isFinite f = true → ∃ integer fraction exponent,
    ops.repr f = integer ++ (fraction ++ exponent) ∧ IsInteger integer ∧ IsFraction fraction ∧
      IsExponent exponent ∧ (fraction ≠ [] ∨ exponent ≠ [])
  ofLiteral_repr : ∀ f, ops.isFinite f = true → ops.ofLiteral (ops.repr f) = f
  eq_refl : ∀ f, ops.isFinite f = true → ops.eq f f = true

/-- `sys.get_int_max_str_digits()`: conversions between longer decimals and integers raise. -/
def maxIntDigits : ℕ := 4300

namespace Json

variable {F : Type} (ops : FloatOps F)

/-! ## Writing -/

def hexDigit (n : ℕ) : Char := "0123456789abcdef".toList.getD n '0'

/-- The escape of a character inside a string. -/
def escapeChar (c : Char) : List Char :=
  if c = '\x22' then ['\x5c', '\x22']
  else if c = '\x5c' then ['\x5c', '\x5c']
  else if c = '\n' then ['\x5c', 'n']
  else if c = '\r' then ['\x5c', 'r']
  else if c = '\t' then ['\x5c', 't']
  else if c = '\x0c' then ['\x5c', 'f']
  else if c = '\x08' then ['\x5c', 'b']
  else if c.toNat < 0x20 then ['\x5c', 'u', '0', '0', hexDigit (c.toNat / 16), hexDigit (c.toNat % 16)]
  else [c]

def dumpsStr (s : List Char) : List Char := '\x22' :: (s.flatMap escapeChar ++ ['\x22'])

/-- The decimal form of an integer. -/
def decimal : ℤ → List Char
  | .ofNat n => Nat.toDigits 10 n
  | .negSucc n => '-' :: Nat.toDigits 10 (n + 1)

def dumpsInt (n : ℤ) : Option (List Char) :=
  if (Nat.toDigits 10 n.natAbs).length ≤ maxIntDigits then some (decimal n) else none

mutual
/-- `json.dumps` with the separators `","` and `":"`. -/
def dumps : Json F → Option (List Char)
  | .null => some "null".toList
  | .bool true => some "true".toList
  | .bool false => some "false".toList
  | .int n => dumpsInt n
  | .float f => if ops.isFinite f then some (ops.repr f) else none
  | .str s => some (dumpsStr s)
  | .arr [] => some "[]".toList
  | .arr (x :: xs) => do
      let first ← dumps x
      let rest ← dumpsItems xs
      pure ('[' :: (first ++ rest))
  | .obj [] => some ['\x7b', '\x7d']
  | .obj ((k, v) :: ms) => do
      let first ← dumps v
      let rest ← dumpsMembers ms
      pure ('\x7b' :: (dumpsStr k ++ (':' :: (first ++ rest))))

/-- The items of an array after the first, and its end. -/
def dumpsItems : List (Json F) → Option (List Char)
  | [] => some [']']
  | x :: xs => do
      let first ← dumps x
      let rest ← dumpsItems xs
      pure (',' :: (first ++ rest))

/-- The members of an object after the first, and its end. -/
def dumpsMembers : List (List Char × Json F) → Option (List Char)
  | [] => some ['\x7d']
  | (k, v) :: ms => do
      let first ← dumps v
      let rest ← dumpsMembers ms
      pure (',' :: (dumpsStr k ++ (':' :: (first ++ rest))))
end

/-! ## Reading -/

def isJsonSpace (c : Char) : Bool := c = ' ' || c = '\t' || c = '\n' || c = '\r'

def skipSpace (s : List Char) : List Char := s.dropWhile isJsonSpace

def hexValue (c : Char) : Option ℕ :=
  if isDigit c then some (c.toNat - '0'.toNat)
  else if 'a' ≤ c ∧ c ≤ 'f' then some (c.toNat - 'a'.toNat + 10)
  else if 'A' ≤ c ∧ c ≤ 'F' then some (c.toNat - 'A'.toNat + 10)
  else none

/-- Four hexadecimal digits. -/
def hex4 : List Char → Option (ℕ × List Char)
  | a :: b :: c :: d :: rest => do
      let a ← hexValue a
      let b ← hexValue b
      let c ← hexValue c
      let d ← hexValue d
      pure (((a * 16 + b) * 16 + c) * 16 + d, rest)
  | _ => none

/-- A character of a text: `none` for half of a surrogate pair, which no text here holds. -/
def charOfCode (n : ℕ) : Option Char := if h : n.isValidChar then some (Char.ofNatAux n h) else none

/-- The end of an escape that begins with `\u`, whose first code unit is `unit`. -/
def unitEscape (unit : ℕ) (rest : List Char) : Option (Char × List Char) :=
  if 0xd800 ≤ unit ∧ unit ≤ 0xdbff then
    match rest with
    | '\x5c' :: 'u' :: more => do
        let (low, rest) ← hex4 more
        if 0xdc00 ≤ low ∧ low ≤ 0xdfff then
          let c ← charOfCode (0x10000 + (unit - 0xd800) * 1024 + (low - 0xdc00))
          pure (c, rest)
        else none
    | _ => none
  else do
    let c ← charOfCode unit
    pure (c, rest)

/-- The character an escape stands for, after the backslash. -/
def escaped : List Char → Option (Char × List Char)
  | '\x22' :: rest => some ('\x22', rest)
  | '\x5c' :: rest => some ('\x5c', rest)
  | '/' :: rest => some ('/', rest)
  | 'b' :: rest => some ('\x08', rest)
  | 'f' :: rest => some ('\x0c', rest)
  | 'n' :: rest => some ('\n', rest)
  | 'r' :: rest => some ('\r', rest)
  | 't' :: rest => some ('\t', rest)
  | 'u' :: rest => do
      let (unit, rest) ← hex4 rest
      unitEscape unit rest
  | _ => none

/-- The body of a string up to its closing quote; control characters must be escaped. -/
def readStr : ℕ → List Char → Option (List Char × List Char)
  | 0, _ => none
  | _ + 1, [] => none
  | fuel + 1, c :: rest =>
      if c = '\x22' then some ([], rest)
      else if c = '\x5c' then do
        let (c, rest) ← escaped rest
        let (s, rest) ← readStr fuel rest
        pure (c :: s, rest)
      else if c.toNat < 0x20 then none
      else do
        let (s, rest) ← readStr fuel rest
        pure (c :: s, rest)

/-- An optional sign, one of those allowed. -/
def takeSign (allowed : List Char) : List Char → List Char × List Char
  | c :: rest => if c ∈ allowed then ([c], rest) else ([], c :: rest)
  | [] => ([], [])

/-- `-?(?:0|[1-9][0-9]*)`. -/
def readInteger (s : List Char) : Option (List Char × List Char) :=
  let signed := takeSign ['-'] s
  match signed.2 with
  | '0' :: rest => some (signed.1 ++ ['0'], rest)
  | body =>
      match body.takeWhile isDigit with
      | [] => none
      | digits => some (signed.1 ++ digits, body.dropWhile isDigit)

/-- `(\.[0-9]+)?`. -/
def readFraction (s : List Char) : List Char × List Char :=
  match s with
  | '.' :: rest =>
      match rest.takeWhile isDigit with
      | [] => ([], s)
      | digits => ('.' :: digits, rest.dropWhile isDigit)
  | _ => ([], s)

/-- `([eE][-+]?[0-9]+)?`. -/
def readExponent (s : List Char) : List Char × List Char :=
  match s with
  | e :: rest =>
      if e = 'e' ∨ e = 'E' then
        let signed := takeSign ['-', '+'] rest
        match signed.2.takeWhile isDigit with
        | [] => ([], s)
        | digits => (e :: (signed.1 ++ digits), signed.2.dropWhile isDigit)
      else ([], s)
  | [] => ([], [])

/-- `int(text)` of an integer literal. -/
def intOfLiteral (s : List Char) : Option ℤ :=
  let signed := takeSign ['-'] s
  if signed.2.length ≤ maxIntDigits then
    let n := Nat.ofDigitChars 10 signed.2 0
    some (if signed.1 = ['-'] then -(n : ℤ) else n)
  else none

/-- A number, or one of the constants `NaN`, `Infinity` and `-Infinity`. -/
def readNumber (s : List Char) : Option (Json F × List Char) :=
  match readInteger s with
  | some (integer, rest) =>
      let (fraction, rest) := readFraction rest
      let (exponent, rest) := readExponent rest
      if fraction = [] ∧ exponent = [] then do
        let n ← intOfLiteral integer
        pure (.int n, rest)
      else some (.float (ops.ofLiteral (integer ++ (fraction ++ exponent))), rest)
  | none =>
      if "NaN".toList <+: s then some (.float ops.nan, s.drop 3)
      else if "Infinity".toList <+: s then some (.float ops.infinity, s.drop 8)
      else if "-Infinity".toList <+: s then some (.float ops.negInfinity, s.drop 9)
      else none

/-- Set a key: the value of an existing key changes, a new key comes last. -/
def setKey (ms : JsonMembers F) (k : List Char) (v : Json F) : JsonMembers F :=
  if ms.any (fun m => m.1 = k) then ms.map fun m => if m.1 = k then (k, v) else m
  else ms ++ [(k, v)]

mutual
/-- One value. -/
def readValue : ℕ → List Char → Option (Json F × List Char)
  | 0, _ => none
  | fuel + 1, s =>
      match s with
      | '\x22' :: rest => do
          let (text, rest) ← readStr rest.length rest
          pure (.str text, rest)
      | '\x7b' :: rest =>
          match skipSpace rest with
          | '\x7d' :: rest => some (.obj [], rest)
          | rest => readMembers fuel [] rest
      | '[' :: rest =>
          match skipSpace rest with
          | ']' :: rest => some (.arr [], rest)
          | rest => readItems fuel [] rest
      | s =>
          if "null".toList <+: s then some (.null, s.drop 4)
          else if "true".toList <+: s then some (.bool true, s.drop 4)
          else if "false".toList <+: s then some (.bool false, s.drop 5)
          else readNumber ops s

/-- The members of an object, from a key on. -/
def readMembers : ℕ → JsonMembers F → List Char → Option (Json F × List Char)
  | 0, _, _ => none
  | fuel + 1, members, s =>
      match s with
      | '\x22' :: rest => do
          let (key, rest) ← readStr rest.length rest
          match skipSpace rest with
          | ':' :: rest => do
              let (value, rest) ← readValue fuel (skipSpace rest)
              match skipSpace rest with
              | '\x7d' :: rest => some (.obj (setKey members key value), rest)
              | ',' :: rest => readMembers fuel (setKey members key value) (skipSpace rest)
              | _ => none
          | _ => none
      | _ => none

/-- The items of an array, from a value on. -/
def readItems : ℕ → List (Json F) → List Char → Option (Json F × List Char)
  | 0, _, _ => none
  | fuel + 1, items, s => do
      let (value, rest) ← readValue fuel s
      match skipSpace rest with
      | ']' :: rest => some (.arr (items ++ [value]), rest)
      | ',' :: rest => readItems fuel (items ++ [value]) (skipSpace rest)
      | _ => none
end

/-- `json.loads` of a text: one value and nothing but space around it. -/
def loads (s : List Char) : Option (Json F) := do
  let (value, rest) ← readValue ops (2 * s.length + 1) (skipSpace s)
  if skipSpace rest = [] then some value else none

/-! ## Order and equality -/

mutual
/-- Members sorted by key, at every level. -/
def sorted : Json F → Json F
  | .arr xs => .arr (sortedItems xs)
  | .obj ms => .obj ((sortedMembers ms).mergeSort fun a b => decide (a.1 ≤ b.1))
  | v => v

def sortedItems : List (Json F) → List (Json F)
  | [] => []
  | x :: xs => sorted x :: sortedItems xs

def sortedMembers : List (List Char × Json F) → List (List Char × Json F)
  | [] => []
  | (k, v) :: ms => (k, sorted v) :: sortedMembers ms
end

/-- The integer a Boolean or an integer is equal to. -/
def asInt : Json F → Option ℤ
  | .bool b => some (if b then 1 else 0)
  | .int n => some n
  | _ => none

mutual
/-- Equality as Python has it: numbers are compared by value, dictionaries without regard to
order. -/
def pyEq : Json F → Json F → Bool
  | .null, .null => true
  | .str s, .str s' => s = s'
  | .arr xs, .arr ys => pyEqItems xs ys
  | .obj ms, .obj ms' => ms.length = ms'.length && pyEqMembers ms ms'
  | .float f, .float g => ops.eq f g
  | .float f, w => (asInt w).any (ops.eqInt f)
  | v, .float g => (asInt v).any (ops.eqInt g)
  | v, w =>
      match asInt v, asInt w with
      | some m, some n => m = n
      | _, _ => false

def pyEqItems : List (Json F) → List (Json F) → Bool
  | [], [] => true
  | x :: xs, y :: ys => pyEq x y && pyEqItems xs ys
  | _, _ => false

def pyEqMembers : List (List Char × Json F) → List (List Char × Json F) → Bool
  | [], _ => true
  | (k, v) :: ms, ms' =>
      match ms'.lookup k with
      | some w => pyEq v w && pyEqMembers ms ms'
      | none => false
end

/-! ## Unique keys -/

mutual
/-- No object has two members with one key. -/
def UniqueKeys : Json F → Prop
  | .arr xs => UniqueKeysItems xs
  | .obj ms => (ms.map (·.1)).Nodup ∧ UniqueKeysMembers ms
  | _ => True

def UniqueKeysItems : List (Json F) → Prop
  | [] => True
  | x :: xs => UniqueKeys x ∧ UniqueKeysItems xs

def UniqueKeysMembers : List (List Char × Json F) → Prop
  | [] => True
  | (_, v) :: ms => UniqueKeys v ∧ UniqueKeysMembers ms
end

end Json

end VeloxRag.Lib
