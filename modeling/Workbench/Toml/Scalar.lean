import Workbench.Toml.Node

set_option autoImplicit false

/-! # TOML scalars

Readers for white space, comments, strings, numbers and dates. A reader takes the text that is left
and yields what it read with what is left then, or nothing if the text is not well-formed there. -/

namespace Workbench.Toml

/-- A reader of values of a type. -/
abbrev Reader (α : Type) := List Char → Option (α × List Char)

/-! ## Space and comments -/

/-- Spaces and tabs. -/
def isSpace (c : Char) : Bool := c == ' ' || c == '\t'

/-- Skip spaces and tabs. -/
def skipSpace (s : List Char) : List Char := s.dropWhile isSpace

/-- The characters that comments and strings may hold: no controls but the tab. -/
def isPlain (c : Char) : Bool := c == '\t' || (0x20 ≤ c.toNat && c.toNat != 0x7F)

/-- Skip one end of line. -/
def newline? : List Char → Option (List Char)
  | '\n' :: rest => some rest
  | '\r' :: '\n' :: rest => some rest
  | _ => none

/-- Skip a comment, up to the end of its line, if one begins here. -/
def skipComment (s : List Char) : List Char :=
  match s with
  | '#' :: rest => rest.dropWhile isPlain
  | _ => s

/-- Skip what may follow a value or a header on its line, and the end of the line. -/
def endOfLine? (s : List Char) : Option (List Char) :=
  match skipComment (skipSpace s) with
  | [] => some []
  | s => newline? s

/-- Skip spaces, comments and ends of lines; `fuel` bounds the number of lines. -/
def skipLines : Nat → List Char → Option (List Char)
  | 0, s => some s
  | fuel + 1, s =>
    match skipSpace s with
    | '#' :: rest => do skipLines fuel (← newline? (rest.dropWhile isPlain))
    | '\n' :: rest => skipLines fuel rest
    | '\r' :: rest => do skipLines fuel (← newline? ('\r' :: rest))
    | s => some s

/-! ## Digits -/

/-- The value of a digit, in a base of at most sixteen. -/
def digitIn? (base : Nat) (c : Char) : Option Nat :=
  let value? : Option Nat :=
    if '0' ≤ c ∧ c ≤ '9' then some (c.toNat - 48)
    else if 'a' ≤ c ∧ c ≤ 'f' then some (c.toNat - 87)
    else if 'A' ≤ c ∧ c ≤ 'F' then some (c.toNat - 55)
    else none
  value?.filter (· < base)

/-- The number with these digits. -/
def numberOf (base : Nat) (digits : List Nat) : Nat := digits.foldl (fun n d => n * base + d) 0

/-- The digits that follow a digit; single underscores may stand between them. -/
def moreDigits? (base : Nat) : Reader (List Nat)
  | [] => some ([], [])
  | '_' :: [] => none
  | '_' :: c :: rest => do
    let d ← digitIn? base c
    let (ds, s) ← moreDigits? base rest
    return (d :: ds, s)
  | c :: rest =>
    match digitIn? base c with
    | some d => (moreDigits? base rest).map fun (ds, s) => (d :: ds, s)
    | none => some ([], c :: rest)

/-- Digits, at least one; single underscores may stand between them. -/
def digits? (base : Nat) : Reader (List Nat)
  | [] => none
  | c :: rest => do
    let d ← digitIn? base c
    let (ds, s) ← moreDigits? base rest
    return (d :: ds, s)

/-- Exactly `count` hexadecimal digits that denote a character. -/
def codePoint? (count : Nat) (s : List Char) : Option (Char × List Char) := do
  let digits := s.take count
  if digits.length ≠ count then none
  let n := numberOf 16 (← digits.mapM (digitIn? 16))
  if n.isValidChar then some (Char.ofNat n, s.drop count) else none

/-! ## Strings -/

/-- What a one-character escape stands for. -/
def escape? : Char → Option Char
  | 'b' => some '\x08'
  | 'f' => some '\x0c'
  | 'n' => some '\n'
  | 'r' => some '\r'
  | 't' => some '\t'
  | '"' => some '"'
  | '\\' => some '\\'
  | _ => none

/-- Read what follows the backslash of an escape. -/
def escaped? : Reader Char
  | 'u' :: rest => codePoint? 4 rest
  | 'U' :: rest => codePoint? 8 rest
  | c :: rest => (escape? c).map (·, rest)
  | [] => none

/-- Skip the end of a line whose end is escaped, and the blank lines and spaces after it. -/
def escapedNewline? (s : List Char) : Option (List Char) :=
  (newline? (skipSpace s)).map fun rest =>
    let space (c : Char) := isSpace c || c == '\n'
    -- a carriage return counts as space only before the end of its line
    let rec skip : List Char → List Char
      | '\r' :: '\n' :: more => skip more
      | c :: more => if space c then skip more else c :: more
      | [] => []
    skip rest

/-- Read the rest of a one-line string with escapes; `out` holds what was read, last first. -/
def basicRest? : Nat → List Char → Reader String
  | 0, _, _ => none
  | fuel + 1, out, s =>
    match s with
    | '"' :: rest => some (String.ofList out.reverse, rest)
    | '\\' :: rest => do
      let (c, rest) ← escaped? rest
      basicRest? fuel (c :: out) rest
    | c :: rest => if isPlain c then basicRest? fuel (c :: out) rest else none
    | [] => none

/-- Read the rest of a one-line string without escapes. -/
def literalRest? (s : List Char) : Option (String × List Char) :=
  let body := s.takeWhile fun c => isPlain c && c != '\''
  match s.drop body.length with
  | '\'' :: rest => some (String.ofList body, rest)
  | _ => none

/-- Close a string of many lines at a run of its quotes: the last three quotes of at most five end
    the string, the others belong to it. -/
def closeRun? (quote : Char) (out : List Char) (s : List Char) : Option (String × List Char) :=
  let run := (s.takeWhile (· == quote)).length
  let kept := min (run - 3) 2
  if run < 3 then none
  else some (String.ofList (List.replicate kept quote ++ out).reverse, s.drop (kept + 3))

/-- Read the rest of a string of many lines; with `escapes` a backslash begins an escape. -/
def linesRest? (quote : Char) (escapes : Bool) : Nat → List Char → Reader String
  | 0, _, _ => none
  | fuel + 1, out, s =>
    match closeRun? quote out s with
    | some result => some result
    | none =>
      match newline? s with
      | some rest => linesRest? quote escapes fuel ('\n' :: out) rest
      | none =>
        match s with
        | [] => none
        | c :: rest =>
          if c == '\\' && escapes then
            match escapedNewline? rest with
            | some rest => linesRest? quote escapes fuel out rest
            | none => do
              let (c, rest) ← escaped? rest
              linesRest? quote escapes fuel (c :: out) rest
          else if isPlain c then linesRest? quote escapes fuel (c :: out) rest
          else none

/-- Skip the end of a line right after an opening quote of a string of many lines. -/
def dropFirstNewline (s : List Char) : List Char := (newline? s).getD s

/-- Read a string on one line. -/
def lineString? : Reader String
  | '"' :: rest => basicRest? (rest.length + 1) [] rest
  | '\'' :: rest => literalRest? rest
  | _ => none

/-- Read a string of any of the four forms. -/
def string? (s : List Char) : Option (String × List Char) :=
  match s with
  | '"' :: '"' :: '"' :: rest => linesRest? '"' true (rest.length + 1) [] (dropFirstNewline rest)
  | '\'' :: '\'' :: '\'' :: rest =>
    linesRest? '\'' false (rest.length + 1) [] (dropFirstNewline rest)
  | _ => lineString? s

/-! ## Dates -/

/-- Exactly `count` decimal digits whose value lies in a range. -/
def field? (count low high : Nat) (s : List Char) : Option (Nat × List Char) := do
  let digits := s.take count
  if digits.length ≠ count then none
  let n := numberOf 10 (← digits.mapM (digitIn? 10))
  if low ≤ n ∧ n ≤ high then some (n, s.drop count) else none

/-- Read one given character. -/
def mark? (c : Char) : List Char → Option (List Char)
  | d :: rest => if c = d then some rest else none
  | [] => none

/-- The number of days in a month. -/
def daysIn (year month : Nat) : Nat :=
  if month = 2 then
    if year % 4 = 0 ∧ (year % 100 ≠ 0 ∨ year % 400 = 0) then 29 else 28
  else if month = 4 ∨ month = 6 ∨ month = 9 ∨ month = 11 then 30
  else 31

/-- Read past a date. -/
def date? (s : List Char) : Option (List Char) := do
  let (year, s) ← field? 4 0 9999 s
  let (month, s) ← field? 2 1 12 (← mark? '-' s)
  let (_, s) ← field? 2 1 (daysIn year month) (← mark? '-' s)
  return s

/-- Read past a time of day; a fraction of a second has at least one digit. -/
def time? (s : List Char) : Option (List Char) := do
  let (_, s) ← field? 2 0 23 s
  let (_, s) ← field? 2 0 59 (← mark? ':' s)
  let (_, s) ← field? 2 0 60 (← mark? ':' s)
  match s with
  | '.' :: c :: rest => if c.isDigit then return rest.dropWhile Char.isDigit else return s
  | _ => return s

/-- Read past the offset from universal time, if there is one. -/
def offset? (s : List Char) : Option (List Char) :=
  match s with
  | c :: rest =>
    if c == 'Z' || c == 'z' then some rest
    else if c == '+' || c == '-' then do
      let (_, s) ← field? 2 0 23 rest
      let (_, s) ← field? 2 0 59 (← mark? ':' s)
      return s
    else some s
  | [] => some s

/-- Read past a date, a time, or both with a separator between them. -/
def datetime? (s : List Char) : Option (List Char) :=
  match date? s with
  | none => time? s
  | some rest =>
    match rest with
    | c :: more =>
      if c == 'T' || c == 't' || c == ' ' then
        match time? more with
        | some s => offset? s
        | none => some rest
      else some rest
    | [] => some []

/-! ## Numbers -/

/-- Read a sign: whether the number is negative. -/
def sign (s : List Char) : Bool × List Char :=
  match s with
  | '+' :: rest => (false, rest)
  | '-' :: rest => (true, rest)
  | _ => (false, s)

/-- Decimal digits without needless zeros before them. -/
def wholeDigits? : Reader (List Nat)
  | '0' :: rest => some ([0], rest)
  | s => digits? 10 s

/-- Whether a decimal number with these digits before an exponent rounds to a double that is finite.
    The first number that does not lies half a step above the largest double. -/
def isFinite (digits : List Nat) (exponent : Int) : Bool :=
  let n := numberOf 10 digits
  let limit : Nat := Nat.pow 2 1024 - Nat.pow 2 970
  if n = 0 then true
  else if exponent + digits.length < 0 then true
  else if exponent > 400 then false
  else if 0 ≤ exponent then n * Nat.pow 10 exponent.toNat < limit
  else n < limit * Nat.pow 10 (-exponent).toNat

/-- Read the exponent of a floating-point number. -/
def exponent? : Reader Int
  | c :: rest =>
    if c == 'e' || c == 'E' then do
      let (negative, s) := sign rest
      let (ds, s) ← digits? 10 s
      let n : Int := numberOf 10 ds
      return (if negative then -n else n, s)
    else none
  | [] => none

/-- Read past a floating-point number. One above the range of doubles is refused. -/
def float? (s : List Char) : Option (List Char) := do
  let (negative, s) := sign s
  match s with
  | 'i' :: 'n' :: 'f' :: rest => return rest
  | 'n' :: 'a' :: 'n' :: rest => return rest
  | _ =>
    let (whole, s) ← wholeDigits? s
    let (fraction, s, pointed) ← match s with
      | '.' :: rest => (digits? 10 rest).map fun (ds, s) => (ds, s, true)
      | _ => some ([], s, false)
    let (power, s) ← match s with
      | c :: _ =>
        if c == 'e' || c == 'E' then exponent? s else if pointed then some (0, s) else none
      | [] => if pointed then some (0, s) else none
    if negative || isFinite (whole ++ fraction) (power - fraction.length) then return s else none

/-- The least integer of a document, which has 64 bits. -/
def minInteger : Int := -9223372036854775808

/-- The greatest integer of a document. -/
def maxInteger : Int := 9223372036854775807

/-- Read an integer that fits 64 bits with a sign. -/
def integer? (s : List Char) : Option (Int × List Char) := do
  let (n, s) ← match s with
    | '0' :: 'x' :: rest => (digits? 16 rest).map fun (ds, s) => ((numberOf 16 ds : Int), s)
    | '0' :: 'o' :: rest => (digits? 8 rest).map fun (ds, s) => ((numberOf 8 ds : Int), s)
    | '0' :: 'b' :: rest => (digits? 2 rest).map fun (ds, s) => ((numberOf 2 ds : Int), s)
    | _ =>
      let (negative, s) := sign s
      (wholeDigits? s).map fun (ds, s) =>
        let n : Int := numberOf 10 ds
        (if negative then -n else n, s)
  if minInteger ≤ n ∧ n ≤ maxInteger then some (n, s) else none

/-- Read a date, a floating-point number or an integer, whichever form fits first. -/
def number? (s : List Char) : Option (Node × List Char) :=
  match datetime? s with
  | some rest => some (.datetime, rest)
  | none =>
    match float? s with
    | some rest => some (.float, rest)
    | none => (integer? s).map fun (n, rest) => (.integer n, rest)

/-- Read one of the words that are values. -/
def word? (s : List Char) : Option (Node × List Char) :=
  match s with
  | 't' :: 'r' :: 'u' :: 'e' :: rest => some (.boolean true, rest)
  | 'f' :: 'a' :: 'l' :: 's' :: 'e' :: rest => some (.boolean false, rest)
  | 'i' :: 'n' :: 'f' :: rest => some (.float, rest)
  | 'n' :: 'a' :: 'n' :: rest => some (.float, rest)
  | _ => none

end Workbench.Toml
