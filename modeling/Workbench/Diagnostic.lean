import Workbench.Text.Decimal
import Workbench.Text.Digit
import Workbench.Text.Split

set_option autoImplicit false

/-! # Diagnostics

What compilers say about a place in a source file: lines `path:line:column: message`, where the
column may be missing. Reading such a line prefers the form with a column; a line that reads as
neither is no diagnostic. -/

namespace Workbench

/-- A message about a place in a file. The column is 0 where none was given. -/
structure Diagnostic where
  path : String
  line : Nat
  column : Nat
  message : String
  deriving DecidableEq, Repr, Inhabited

namespace Diagnostic

/-- A colon and the message after it, up to the end of the line. -/
def message? : List Char → Option String
  | ':' :: rest =>
    let message := Text.trimStart rest
    if message.isEmpty then none else some (String.ofList message)
  | _ => none

/-- A colon and a number after it, in digits of any script, with what follows the number. -/
def number? : List Char → Option (List Char × List Char)
  | ':' :: rest =>
    let digits := rest.takeWhile Text.isDecimalDigit
    if digits.isEmpty then none else some (digits, rest.dropWhile Text.isDecimalDigit)
  | _ => none

/-- A column and a message; a column that is no 32-bit number in ASCII digits counts as none. -/
def columnAndMessage? (s : List Char) : Option (Nat × String) := do
  let (digits, rest) ← number? s
  let message ← message? rest
  return ((Text.word? 32 digits).getD 0, message)

/-- Read a line of a compiler's output. -/
def parseLine (raw : List Char) : Option Diagnostic := do
  let text := Text.trimEnd raw
  let path := text.takeWhile (· ≠ ':')
  let first ← path.head?
  if Text.isBlank first then none
  let (digits, rest) ← number? (text.dropWhile (· ≠ ':'))
  let (column, message) ← match columnAndMessage? rest with
    | some found => some found
    | none => (message? rest).map (0, ·)
  let line ← Text.word? 32 digits
  return ⟨String.ofList path, line, column, message⟩

/-- The diagnostics in a compiler's output. -/
def parse (output : String) : List Diagnostic := (Text.linesOf output).filterMap parseLine

/-- Whether the file meant has the same name as the one at `path`, in whatever directory. -/
def refersTo (d : Diagnostic) (path : String) : Bool :=
  Text.lastSegment d.path.toList == Text.lastSegment path.toList

/-- The line of a diagnostic. -/
def toText (d : Diagnostic) : String :=
  let column := if d.column > 0 then ":" ++ toString d.column else ""
  d.path ++ ":" ++ toString d.line ++ column ++ ": " ++ d.message

end Diagnostic

end Workbench
