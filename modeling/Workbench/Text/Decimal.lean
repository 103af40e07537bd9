set_option autoImplicit false

/-! # Decimal numerals

Reading a non-negative number written in ASCII digits, with an optional `+` before it. -/

namespace Workbench.Text

/-- The value of an ASCII digit. -/
def digitValue? (c : Char) : Option Nat :=
  if '0' ≤ c ∧ c ≤ '9' then some (c.toNat - '0'.toNat) else none

/-- The number that a list of ASCII digits denotes; none if another character is among them. -/
def digitsValue? (s : List Char) : Option Nat :=
  s.foldlM (fun n c => (digitValue? c).map (10 * n + ·)) 0

/-- Read a numeral: digits, at least one, after an optional `+`. -/
def natural? (s : List Char) : Option Nat :=
  let digits := match s with
    | '+' :: rest => rest
    | _ => s
  if digits.isEmpty then none else digitsValue? digits

/-- Read a numeral whose value stays below `2 ^ bits`. -/
def word? (bits : Nat) (s : List Char) : Option Nat :=
  (natural? s).filter (· < Nat.pow 2 bits)

end Workbench.Text
