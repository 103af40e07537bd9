import Workbench.Json.Value
import Workbench.Text.Decimal

set_option autoImplicit false

/-! # Reading JSON

A strict reader of JSON texts: no comments, no trailing commas, no leading zeros, and nothing after
the value but blanks. Objects keep all their entries, also those whose key comes again. -/

namespace Workbench.JsonValue

/-- The blanks of JSON. -/
def isBlank (c : Char) : Bool := c == ' ' || c == '\t' || c == '\n' || c == '\r'

/-- Drop the blanks at the start. -/
def skip (s : List Char) : List Char := s.dropWhile isBlank

/-- The value of a hexadecimal digit. -/
def hexValue? (c : Char) : Option Nat :=
  if '0' ≤ c ∧ c ≤ '9' then some (c.toNat - '0'.toNat)
  else if 'a' ≤ c ∧ c ≤ 'f' then some (c.toNat - 'a'.toNat + 10)
  else if 'A' ≤ c ∧ c ≤ 'F' then some (c.toNat - 'A'.toNat + 10)
  else none

/-- The value of four hexadecimal digits. -/
def unit? (a b c d : Char) : Option Nat := do
  return ((← hexValue? a) * 16 + (← hexValue? b)) * 256 + (← hexValue? c) * 16 + (← hexValue? d)

/-- The character that a letter after a backslash stands for. -/
def unescape? : Char → Option Char
  | '"' => some '"'
  | '\\' => some '\\'
  | '/' => some '/'
  | 'b' => some '\x08'
  | 'f' => some '\x0c'
  | 'n' => some '\n'
  | 'r' => some '\r'
  | 't' => some '\t'
  | _ => none

/-- The character of a pair of surrogates. -/
def pair? (high low : Nat) : Option Char :=
  if 0xD800 ≤ high ∧ high < 0xDC00 ∧ 0xDC00 ≤ low ∧ low < 0xE000 then
    some (Char.ofNat (0x10000 + (high - 0xD800) * 0x400 + (low - 0xDC00)))
  else none

/-- Read a text up to its closing quote, gathering it in reverse. -/
def readString (out : List Char) : List Char → Option (String × List Char)
  | [] => none
  | '"' :: rest => some (String.ofList out.reverse, rest)
  | '\\' :: 'u' :: a :: b :: c :: d :: '\\' :: 'u' :: e :: f :: g :: h :: rest =>
    match unit? a b c d, unit? e f g h with
    | some high, some low =>
      match pair? high low with
      | some x => readString (x :: out) rest
      | none =>
        if (0xD800 ≤ high ∧ high < 0xE000) then none
        else readString (Char.ofNat high :: out) ('\\' :: 'u' :: e :: f :: g :: h :: rest)
    | _, _ => none
  | '\\' :: 'u' :: a :: b :: c :: d :: rest =>
    match unit? a b c d with
    | some n =>
      if (0xD800 ≤ n ∧ n < 0xE000) then none else readString (Char.ofNat n :: out) rest
    | none => none
  | '\\' :: c :: rest =>
    match unescape? c with
    | some x => readString (x :: out) rest
    | none => none
  | c :: rest => if c < ' ' then none else readString (c :: out) rest
termination_by s => s.length

/-- Split off the digits at the start. -/
def digits (s : List Char) : List Char × List Char := s.span fun c => '0' ≤ c && c ≤ '9'

/-- Digits, at least one. -/
def someDigits? (s : List Char) : Option (List Char × List Char) :=
  let (d, rest) := digits s
  if d.isEmpty then none else some (d, rest)

/-- The whole part of a numeral, which has no zero before other digits. -/
def wholePart? (s : List Char) : Option (List Char × List Char) :=
  match s with
  | '0' :: rest => if (digits rest).1.isEmpty then some (['0'], rest) else none
  | _ => someDigits? s

/-- A part of a numeral that may be missing: a mark and digits after it. -/
def markedDigits? (isMark : Char → Bool) (signs : Bool) (s : List Char) :
    Option (List Char × List Char) :=
  match s with
  | c :: rest =>
    if isMark c then
      let (sign, rest) := match rest with
        | x :: more => if signs && (x == '+' || x == '-') then ([x], more) else ([], rest)
        | [] => ([], rest)
      (someDigits? rest).map fun (d, rest) => (c :: sign ++ d, rest)
    else some ([], s)
  | [] => some ([], s)

/-- Read a numeral. -/
def readNumber (s : List Char) : Option (JsonValue × List Char) := do
  let (sign, rest) := match s with
    | '-' :: rest => (['-'], rest)
    | _ => ([], s)
  let (whole, rest) ← wholePart? rest
  let (fraction, rest) ← markedDigits? (· == '.') false rest
  let (exponent, rest) ← markedDigits? (fun c => c == 'e' || c == 'E') true rest
  return (.number (String.ofList (sign ++ whole ++ fraction ++ exponent)), rest)

/-- Read a word, if it stands at the start. -/
def readWord (word : String) (value : JsonValue) (s : List Char) : Option (JsonValue × List Char) :=
  if word.toList.isPrefixOf s then some (value, s.drop word.length) else none

/-- Read items up to a closing bracket, gathering them in reverse; `next` reads one item. -/
def readMany {α : Type} (close : Char) (next : List Char → Option (α × List Char)) :
    Nat → List α → List Char → Option (List α × List Char)
  | 0, _, _ => none
  | fuel + 1, out, s => do
    let (item, rest) ← next (skip s)
    match skip rest with
    | ',' :: rest => readMany close next fuel (item :: out) rest
    | c :: rest => if c = close then return ((item :: out).reverse, rest) else none
    | [] => none

/-- Read the items of an array or object, after its opening bracket. -/
def readAll {α : Type} (close : Char) (next : List Char → Option (α × List Char))
    (s : List Char) : Option (List α × List Char) :=
  match skip s with
  | c :: rest => if c = close then some ([], rest) else readMany close next s.length [] s
  | [] => none

/-- Read an entry of an object with a reader for its value. -/
def readEntry (value : List Char → Option (JsonValue × List Char)) (s : List Char) :
    Option ((String × JsonValue) × List Char) := do
  match s with
  | '"' :: rest =>
    let (key, rest) ← readString [] rest
    match skip rest with
    | ':' :: rest =>
      let (v, rest) ← value (skip rest)
      return ((key, v), rest)
    | _ => none
  | _ => none

/-- Read a value whose depth is less than `depth`. -/
def readValue : Nat → List Char → Option (JsonValue × List Char)
  | 0, _ => none
  | depth + 1, s =>
    match s with
    | '"' :: rest => (readString [] rest).map fun (text, rest) => (.string text, rest)
    | '[' :: rest =>
      (readAll ']' (readValue depth) rest).map fun (items, rest) => (.array items, rest)
    | '\x7b' :: rest =>
      (readAll '\x7d' (readEntry (readValue depth)) rest).map fun (entries, rest) =>
        (.object entries, rest)
    | 't' :: _ => readWord "true" (.boolean true) s
    | 'f' :: _ => readWord "false" (.boolean false) s
    | 'n' :: _ => readWord "null" .null s
    | _ => readNumber s

/-- Read a JSON text. -/
def ofText? (text : String) : Option JsonValue :=
  let s := text.toList
  match readValue (s.length + 1) (skip s) with
  | some (value, rest) => if (skip rest).isEmpty then some value else none
  | none => none

/-- The text that a value is. -/
def textOf? : JsonValue → Option String
  | .string text => some text
  | _ => none

/-- The number that a value is, if it is whole, not negative and below `2 ^ bits`. -/
def wordOf? (bits : Nat) : JsonValue → Option Nat
  | .number numeral => Text.word? bits numeral.toList
  | _ => none

/-- The value under a key of an object that has the key once. -/
def field? (key : String) (entries : List (String × JsonValue)) : Option JsonValue :=
  match entries.filter (·.1 = key) with
  | [(_, value)] => some value
  | _ => none

end Workbench.JsonValue
