import Workbench.Shell.Arithmetic
import Workbench.Shell.Machine
import Workbench.Shell.Pattern
import Workbench.Text.Blank
import Workbench.Text.Utf8

set_option autoImplicit false

/-! # Expanding words

From words to fields. Parameters and outputs that are not quoted are split at blanks, quoted ones
stay together, and `"$@"` becomes one field for each argument. A field with an open pattern stands
for the files whose paths match it, if there are any. -/

namespace Workbench.Shell

/-- Fields that are being put together: the finished ones, and the one under way. -/
structure Fields where
  finished : List (List Marked)
  current : Option (List Marked)
  deriving Inhabited

namespace Fields

/-- Nothing yet. -/
def empty : Fields := ⟨[], none⟩

/-- Add characters to the field under way. -/
def add (f : Fields) (quoted : Bool) (s : List Char) : Fields :=
  if s.isEmpty && !quoted then f
  else { f with current := some (f.current.getD [] ++ s.map (·, quoted)) }

/-- End the field under way. -/
def close (f : Fields) : Fields :=
  match f.current with
  | none => f
  | some field => ⟨f.finished ++ [field], none⟩

/-- Add a text that is split at blanks. -/
def addSplit (f : Fields) (s : List Char) : Fields :=
  s.foldl (fun f c => if c == ' ' || c == '\t' || c == '\n' then f.close else f.add false [c]) f

/-- Add a value. -/
def addValue (f : Fields) (quoted : Bool) (value : String) : Fields :=
  if quoted then f.add true value.toList else f.addSplit value.toList

/-- Add several values, each in a field of its own; the first goes on with the field under way. -/
def addEach (f : Fields) (quoted : Bool) : List String → Fields
  | [] => f
  | [last] => f.addValue quoted last
  | value :: rest => ((f.addValue quoted value).close).addEach quoted rest

/-- All fields. -/
def toList (f : Fields) : List (List Marked) := f.close.finished

end Fields

/-- The text of a field. -/
def fieldText (field : List Marked) : String := String.ofList (field.map Prod.fst)

/-- The shortest or longest part at the start of a text that matches a pattern, taken away. -/
def cutStart (longest : Bool) (p : List Glob) (s : List Char) : List Char :=
  let lengths := List.range (s.length + 1)
  let lengths := if longest then lengths.reverse else lengths
  match lengths.find? fun n => Glob.matches p (s.take n) with
  | some n => s.drop n
  | none => s

/-- The shortest or longest part at the end of a text that matches a pattern, taken away. -/
def cutEnd (longest : Bool) (p : List Glob) (s : List Char) : List Char :=
  let lengths := List.range (s.length + 1)
  let lengths := if longest then lengths else lengths.reverse
  match lengths.find? fun n => Glob.matches p (s.drop n) with
  | some n => s.take n
  | none => s

/-- The output of a command, without the line ends at its end. -/
def outputOf (exec : Exec) (body : Command) : Doing String := do
  let (_, bytes) ← captured (exec false body)
  return String.ofList (Text.dropEndWhile (· == '\n') (Text.ofUtf8Lossy bytes).toList)

/-- The value of an arithmetic expression, which may set a parameter on the way. -/
def valueOf (expression : String) : Doing String := do
  let m ← get
  match calculate? (fun name => numberOfValue (m.parameter? name)) expression.toList with
  | none => do
    complain (m.name ++ ": arithmetic expression: \"" ++ expression ++ "\"")
    return ""
  | some (n, assigned) => do
    if let some name := assigned then modify (·.setVariable name (toString n))
    return toString n

/-- Add a parameter. -/
def addParameter (m : Machine) (name : String) (quoted : Bool) (f : Fields) : Fields :=
  match name, quoted with
  | "@", _ => f.addEach quoted m.args
  | "*", false => f.addEach false m.args
  | _, _ => f.addValue quoted ((m.parameter? name).getD "")

mutual

/-- Add a piece of a word. -/
def addPiece (exec : Exec) (f : Fields) : Piece → Doing Fields
  | .text t quoted => return f.add quoted t.toList
  | .parameter name quoted => return addParameter (← get) name quoted f
  | .length name => do
    return f.add false (toString (((← get).parameter? name).getD "").length).toList
  | .output body quoted => do return f.addValue quoted (← outputOf exec body)
  | .number expression quoted => do
    let fields ← addPieces exec .empty expression
    return f.addValue quoted (← valueOf (" ".intercalate (fields.toList.map fieldText)))
  | .modified name operator word quoted => do
    let value := (← get).parameter? name
    let isThere := if operator.toList.head? = some ':' then value.any (· ≠ "") else value.isSome
    if operator ∈ [":+", "+"] then
      if isThere then addPieces exec f word else return f
    else if operator ∈ [":-", "-", ":=", "=", ":?", "?"] then
      if isThere then return addParameter (← get) name quoted f
      else if operator ∈ [":=", "="] then
        let fields ← addPieces exec .empty word
        let text := " ".intercalate (fields.toList.map fieldText)
        modify (·.setVariable name text)
        return f.addValue quoted text
      else addPieces exec f word
    else
      let fields ← addPieces exec .empty word
      let p := globOf (fields.toList.intersperse [(' ', true)]).flatten
      let s := (value.getD "").toList
      let rest := match operator with
        | "#" => cutStart false p s
        | "##" => cutStart true p s
        | "%" => cutEnd false p s
        | _ => cutEnd true p s
      return f.addValue quoted (String.ofList rest)

/-- Add the pieces of a word. -/
def addPieces (exec : Exec) (f : Fields) : List Piece → Doing Fields
  | [] => return f
  | piece :: rest => do addPieces exec (← addPiece exec f piece) rest

end

/-- The fields of a word, before patterns are looked at. -/
def fieldsOf (exec : Exec) (word : Word) : Doing (List (List Marked)) := do
  match word with
  | [.text "" true, .parameter "@" true] =>
    return (← get).args.map fun a => a.toList.map (·, true)
  | _ => return (← addPieces exec .empty word).toList

/-- The text of a word that is not split. -/
def textOf (exec : Exec) (word : Word) : Doing String := do
  let quoted : Word := word.map fun
    | .parameter name _ => .parameter name true
    | .output body _ => .output body true
    | .number expression _ => .number expression true
    | .modified name operator word _ => .modified name operator word true
    | piece => piece
  return " ".intercalate ((← addPieces exec .empty quoted).toList.map fieldText)

/-- The pattern of a word. -/
def patternOf (exec : Exec) (word : Word) : Doing (List Glob) := do
  return globOf (((← addPieces exec .empty word).toList.intersperse [(' ', true)]).flatten)

/-! ## Paths that match -/

/-- The components of a field between slashes. -/
def components (field : List Marked) : List (List Marked) :=
  field.foldr (fun c parts =>
    if c.1 = '/' then [] :: parts
    else
      match parts with
      | [] => [[c]]
      | part :: rest => (c :: part) :: rest) [[]]

/-- The names in a directory that match a pattern, in order. A dot at the start has to be written.
    -/
def namesMatching (d : Host.Disk) (dir : String) (p : List Glob) : List String :=
  let names := (((d.list (if dir.isEmpty then "." else dir)).toOption.getD []).map Prod.fst)
  (names.filter fun name =>
    Glob.matches p name.toList &&
      (name.toList.head? ≠ some '.' || p.head? = some (.char '.'))).mergeSort (· ≤ ·)

/-- The paths that match components, each beginning with a text. -/
def pathsMatching (d : Host.Disk) : List (List Marked) → List String → List String
  | [], starts => starts.filter d.contains
  | part :: rest, starts =>
    let p := globOf part
    let next := starts.flatMap fun start =>
      if Glob.isOpen p then (namesMatching d start p).map (start ++ ·)
      else [start ++ fieldText part]
    pathsMatching d rest (if rest.isEmpty then next else next.map (· ++ "/"))

/-- The texts that a field stands for. -/
def expandField (d : Host.Disk) (field : List Marked) : List String :=
  if Glob.isOpen (globOf field) then
    match pathsMatching d (components field) [""] with
    | [] => [fieldText field]
    | paths => paths
  else [fieldText field]

/-- The texts that words stand for. -/
def expandWords (exec : Exec) : List Word → Doing (List String)
  | [] => return []
  | word :: rest => do
    let fields ← fieldsOf exec word
    let disk := (← get).disk
    return fields.flatMap (expandField disk) ++ (← expandWords exec rest)

end Workbench.Shell
