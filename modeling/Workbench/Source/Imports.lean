import Workbench.Text.Split

set_option autoImplicit false

/-! # The imports of a Go source file

A scanner for the import section of a source file, line by line. It knows single imports, import
blocks, aliases and comments, and it stops at the first line that is none of these, which is the
first declaration. It does not parse Go: a path may be any text between double quotes. -/

namespace Workbench.Source

/-- The characters that may begin a name. -/
def beginsName (c : Char) : Bool := c.isAlpha || c == '_'

/-- The characters that may continue a name. -/
def continuesName (c : Char) : Bool := c.isAlphanum || c == '_'

/-- The path of a text that is a path in quotes, and after it at most blanks and a comment. -/
def quotedPath? : List Char → Option String
  | '"' :: rest =>
    let path := rest.takeWhile (· ≠ '"')
    match rest.dropWhile (· ≠ '"') with
    | [] => none
    | _ :: after =>
      let after := Text.trimStart after
      if path.isEmpty then none
      else if after.isEmpty || (Text.strip? ['/', '/'] after).isSome then some (String.ofList path)
      else none
  | _ => none

/-- What follows an alias, which is a name or a dot, and the blanks after it. -/
def afterAlias? (s : List Char) : Option (List Char) :=
  let rest? : Option (List Char) := match s with
    | '.' :: rest => some rest
    | c :: rest => if beginsName c then some (rest.dropWhile continuesName) else none
    | [] => none
  match rest? with
  | some (c :: rest) => if Text.isBlank c then some (Text.trimStart rest) else none
  | _ => none

/-- The path of an import, which is a quoted path, perhaps behind an alias. -/
def importPath? (s : List Char) : Option String :=
  match afterAlias? s with
  | some rest => quotedPath? rest
  | none => quotedPath? s

/-- Cut off a line comment. Two slashes inside quotes, where the number of quotes before them is
    odd, begin no comment. -/
def stripComment (line : List Char) : List Char :=
  match Text.cut? ['/', '/'] line with
  | some (before, _) => if before.count '"' % 2 = 0 then Text.trimEnd before else line
  | none => line

/-- Where the scanner is: in an import block, in a comment that spans lines, or past the imports. -/
structure Scanner where
  inBlock : Bool
  inComment : Bool
  finished : Bool
  /-- The paths found so far, in order, each once. -/
  found : List String
  deriving DecidableEq, Repr

namespace Scanner

/-- The scanner at the start of a file. -/
def start : Scanner := ⟨false, false, false, []⟩

/-- Note the import that a text holds, if it holds one that is new. -/
def note (s : Scanner) (text : List Char) : Scanner :=
  match importPath? text with
  | some path => if s.found.contains path then s else { s with found := s.found ++ [path] }
  | none => s

/-- What is left of a line once it has left a comment that began on an earlier line. -/
def leaveComment (s : Scanner) (line : List Char) : Option (List Char) :=
  if s.inComment then (Text.cut? ['*', '/'] line).map fun cut => Text.trim cut.2
  else some line

/-- What is left of a line once a comment at its start is taken away; `none` if it does not end on
    the line. -/
def dropComment (line : List Char) : Option (List Char) :=
  match Text.strip? ['/', '*'] line with
  | some rest => (Text.cut? ['*', '/'] rest).map fun cut => Text.trim cut.2
  | none => some line

/-- Take a line of an import block. -/
def blockLine (s : Scanner) (line : List Char) : Scanner :=
  if line.head? = some ')' then { s with inBlock := false } else s.note line

/-- Take what follows the opening parenthesis of an import block. -/
def openBlock (s : Scanner) (inner : List Char) : Scanner :=
  let inner := Text.trim inner
  if inner.head? = some ')' then s
  else
    match Text.stripEnd? [')'] inner with
    | some body => s.note (Text.trim body)
    | none => { s with inBlock := true }.note inner

/-- Take a line outside of import blocks. -/
def topLine (s : Scanner) (line : List Char) : Scanner :=
  if (Text.strip? "package ".toList line).isSome then s
  else
    match Text.strip? "import".toList line with
    | none => { s with finished := true }
    | some rest =>
      match Text.trimStart rest with
      | '(' :: inner => s.openBlock inner
      | spec => s.note spec

/-- Take a line that holds no comment. -/
def codeLine (s : Scanner) (line : List Char) : Scanner :=
  if line.isEmpty then s
  else if s.inBlock then s.blockLine line
  else s.topLine line

/-- Take a line of the file. -/
def step (s : Scanner) (raw : List Char) : Scanner :=
  if s.finished then s
  else
    match s.leaveComment (Text.trim raw) with
    | none => s
    | some line =>
      let s := { s with inComment := false }
      match dropComment line with
      | none => { s with inComment := true }
      | some line => s.codeLine (stripComment line)

end Scanner

/-- The import paths of a source file, in order of first appearance. -/
def imports (source : String) : List String :=
  ((Text.linesOf source).foldl Scanner.step .start).found

end Workbench.Source
