import Workbench.Host.Disk
import Workbench.Text.Decimal

set_option autoImplicit false

/-! # Conditions

The conditions of `test`: on files, on texts and on integers. How many arguments there are decides
how they are read, so that an argument that looks like an operator can stand for itself. -/

namespace Workbench.Shell

/-- The truth of a condition on one argument. -/
def unary? (d : Host.Disk) (operator arg : String) : Option Bool :=
  let node := (d.find arg).toOption.map Prod.snd
  match operator with
  | "-n" => some (arg ≠ "")
  | "-z" => some (arg = "")
  | "-e" | "-r" | "-w" => some node.isSome
  | "-f" => some (node.any Tree.isFile)
  | "-d" => some (node.any Tree.isDir)
  | "-x" => some (node.any fun t => t.attributes &&& 0o111 ≠ 0)
  | "-s" => some (node.any fun
    | .file data _ => data.size > 0
    | .dir .. => true)
  | "-h" | "-L" | "-p" | "-S" | "-b" | "-c" | "-t" => some false
  | _ => none

/-- The integer that an argument denotes. -/
def integer? (arg : String) : Option Int :=
  match arg.toList with
  | '-' :: digits => (Text.natural? digits).map fun n => -n
  | s => (Text.natural? s).map fun n => n

/-- The truth of a condition on two arguments. -/
def binary? (left operator right : String) : Option Bool :=
  let compare (p : Int → Int → Bool) : Option Bool := do
    return p (← integer? left) (← integer? right)
  match operator with
  | "=" => some (left = right)
  | "!=" => some (left ≠ right)
  | "-eq" => compare (· == ·)
  | "-ne" => compare (· != ·)
  | "-lt" => compare (· < ·)
  | "-le" => compare (· ≤ ·)
  | "-gt" => compare (· > ·)
  | "-ge" => compare (· ≥ ·)
  | _ => none

/-- Split a list at the first place where a word stands between others. -/
def splitAt? (word : String) (args : List String) : Option (List String × List String) :=
  match args.drop 1 |>.findIdx? (· = word) with
  | some i => if i + 2 < args.length then some (args.take (i + 1), args.drop (i + 2)) else none
  | none => none

/-- The truth of a condition; nothing if it is none. -/
def holds? (d : Host.Disk) : Nat → List String → Option Bool
  | 0, _ => none
  | fuel + 1, args =>
    match args with
    | [] => some false
    | [a] => some (a ≠ "")
    | ["!", a] => some (a = "")
    | [operator, a] => unary? d operator a
    | ["(", a, ")"] => some (a ≠ "")
    | _ =>
      let plain := match args with
        | [left, operator, right] => binary? left operator right
        | _ => none
      match plain, splitAt? "-o" args, splitAt? "-a" args, args with
      | some truth, _, _, _ => some truth
      | _, some (left, right), _, _ => do return (← holds? d fuel left) || (← holds? d fuel right)
      | _, _, some (left, right), _ => do return (← holds? d fuel left) && (← holds? d fuel right)
      | _, _, _, "!" :: rest => (holds? d fuel rest).map (!·)
      | _, _, _, "(" :: rest =>
        if rest.getLast? = some ")" then holds? d fuel rest.dropLast else none
      | _, _, _, _ => none

end Workbench.Shell
