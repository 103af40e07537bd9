import Workbench.Shell.Token

set_option autoImplicit false

/-! # Arithmetic in scripts

Expressions over whole numbers of 64 bits, with the operators of the C language: binary ones by how
tightly they bind, from left to right, and the signs and negations before an operand. A name stands
for the number that is the value of its parameter. At the top an expression may be assigned to a
name. -/

namespace Workbench.Shell

/-- The number that is left of another in 64 bits. -/
def wrapped (n : Int) : Int := n.bmod 18446744073709551616

/-- The number of a truth. -/
def numberOfTruth (b : Bool) : Int := if b then 1 else 0

/-- The value of a binary operator; a number cannot be divided by zero. -/
def applyOperator (op : String) (a b : Int) : Option Int :=
  match op with
  | "||" => some (numberOfTruth (a != 0 || b != 0))
  | "&&" => some (numberOfTruth (a != 0 && b != 0))
  | "==" => some (numberOfTruth (a == b))
  | "!=" => some (numberOfTruth (a != b))
  | "<" => some (numberOfTruth (a < b))
  | "<=" => some (numberOfTruth (a ≤ b))
  | ">" => some (numberOfTruth (a > b))
  | ">=" => some (numberOfTruth (a ≥ b))
  | "+" => some (wrapped (a + b))
  | "-" => some (wrapped (a - b))
  | "*" => some (wrapped (a * b))
  | "/" => if b = 0 then none else some (wrapped (a.tdiv b))
  | "%" => if b = 0 then none else some (a.tmod b)
  | _ => none

/-- The binary operators by how tightly they bind, the loosest first. -/
def operatorLevels : List (List String) :=
  [["||"], ["&&"], ["==", "!="], ["<=", ">=", "<", ">"], ["+", "-"], ["*", "/", "%"]]

/-- A text without the blanks at its start. -/
def skipBlanks (s : List Char) : List Char :=
  s.dropWhile fun c => c == ' ' || c == '\t' || c == '\n'

/-- The operator of a level at the start of a text. -/
def operatorOf? (level : List String) (s : List Char) : Option (String × List Char) :=
  level.findSome? fun op => (Text.strip? op.toList s).map (op, ·)

/-- Read an operand: a number, a name, or an expression in parentheses, with signs before it. -/
def readOperand (value : String → Int) (expression : List Char → Option (Int × List Char)) :
    Nat → List Char → Option (Int × List Char)
  | 0, _ => none
  | fuel + 1, s =>
    match skipBlanks s with
    | '-' :: rest => do
      let (n, rest) ← readOperand value expression fuel rest
      return (wrapped (-n), rest)
    | '+' :: rest => readOperand value expression fuel rest
    | '!' :: rest => do
      let (n, rest) ← readOperand value expression fuel rest
      return (numberOfTruth (n == 0), rest)
    | '(' :: rest => do
      let (n, rest) ← expression rest
      match skipBlanks rest with
      | ')' :: rest => some (n, rest)
      | _ => none
    | c :: rest =>
      let s := c :: rest
      if c.isDigit then do
        let digits := s.takeWhile Char.isDigit
        return ((← Text.digitsValue? digits : Nat), s.drop digits.length)
      else if beginsName c then
        some (value (String.ofList (s.takeWhile continuesName)), s.dropWhile continuesName)
      else none
    | [] => none

/-- Read what follows a first operand: operators of a level with their operands. -/
def readOperations (level : List String) (operand : List Char → Option (Int × List Char)) :
    Nat → Int → List Char → Option (Int × List Char)
  | 0, _, _ => none
  | fuel + 1, n, s =>
    match operatorOf? level (skipBlanks s) with
    | none => some (n, s)
    | some (op, rest) => do
      let (m, rest) ← operand rest
      readOperations level operand fuel (← applyOperator op n m) rest

/-- Read an expression in which the operators of some levels stand; the fuel bounds the nesting. -/
def readLevels (value : String → Int) :
    Nat → List (List String) → List Char → Option (Int × List Char)
  | 0, _, _ => none
  | fuel + 1, [], s =>
    readOperand value (readLevels value fuel operatorLevels) (s.length + 1) s
  | fuel + 1, level :: levels, s => do
    let (n, rest) ← readLevels value fuel levels s
    readOperations level (readLevels value fuel levels) (s.length + 1) n rest

/-- The value of an expression. -/
def evaluate? (value : String → Int) (s : List Char) : Option Int := do
  if (skipBlanks s).isEmpty then return 0
  let (n, rest) ← readLevels value ((operatorLevels.length + 2) * (s.length + 1)) operatorLevels s
  if (skipBlanks rest).isEmpty then some n else none

/-- The name that an expression is assigned to, with an operator where the old value takes part, and
    the expression. -/
def assignedName? (s : List Char) : Option (String × Option String × List Char) := do
  let s := skipBlanks s
  let name := s.takeWhile continuesName
  if !(name.head?.any beginsName) then none
  let rest := skipBlanks (s.drop name.length)
  let (op, rest) := match operatorOf? ["+", "-", "*", "/", "%"] rest with
    | some (op, rest) => (some op, rest)
    | none => (none, rest)
  match rest with
  | '=' :: '=' :: _ => none
  | '=' :: rest => some (String.ofList name, op, rest)
  | _ => none

/-- The value of an expression that may be assigned, and the name and number to be assigned. -/
def calculate? (value : String → Int) (s : List Char) : Option (Int × Option String) :=
  match assignedName? s with
  | none => (evaluate? value s).map (·, none)
  | some (name, op, rest) => do
    let n ← evaluate? value rest
    let n ← match op with
      | some op => applyOperator op (value name) n
      | none => some n
    return (n, some name)

/-- The number that the value of a parameter denotes; what is no number counts as zero. -/
def numberOfValue (value : Option String) : Int := ((value.bind String.toInt?)).getD 0

example : evaluate? (fun _ => 5) "1 + 2*(x - 3) < 6 && !0".toList = some 1 := by cbv

end Workbench.Shell
