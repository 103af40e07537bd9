import Workbench.Text.Showable

set_option autoImplicit false

/-! # Quoted texts

A text between double quotes, on one line and with nothing hidden in it: a quote, a backslash and
the common controls are written with a backslash before them, and any other character that cannot be
shown by its number. -/

namespace Workbench.Text

/-- The characters that a backslash stands before, and what is written after it. -/
def escapes : List (Char × Char) :=
  [('\x00', '0'), ('\t', 't'), ('\r', 'r'), ('\n', 'n'), ('"', '"'), ('\\', '\\')]

/-- How a character is written between quotes. -/
def spelling (c : Char) : List Char :=
  match escapes.lookup c with
  | some letter => ['\\', letter]
  | none =>
    if isShowable c then [c]
    else ['\\', 'u', '\x7b'] ++ Nat.toDigits 16 c.toNat ++ ['\x7d']

/-- A text between quotes. -/
def quoted (text : String) : String := "\"" ++ String.ofList (text.toList.flatMap spelling) ++ "\""

end Workbench.Text
