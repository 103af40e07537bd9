import Workbench.Toml.Scalar

set_option autoImplicit false

/-! # Reading TOML documents

Keys, arrays, inline tables, table headers, and the document as a whole. Nested values are read by
recursion on a fuel that the length of the text provides; nesting beyond a fixed depth is refused,
as are dotted keys with too many parts. -/

namespace Workbench.Toml

/-- How deeply values may nest, and one more than a dotted key may have parts. -/
def depthLimit : Nat := 80

/-! ## Keys -/

/-- The characters of a key without quotes. -/
def isBare (c : Char) : Bool := c.isAlphanum || c == '_' || c == '-'

/-- Read one part of a key. -/
def keyPart? (s : List Char) : Option (String × List Char) :=
  match s with
  | '"' :: _ => lineString? s
  | '\'' :: _ => lineString? s
  | _ =>
    let name := s.takeWhile isBare
    if name.isEmpty then none else some (String.ofList name, s.drop name.length)

/-- Read the parts of a key between dots, with spaces around each. -/
def keyParts? : Nat → Reader (List String)
  | 0, _ => none
  | fuel + 1, s => do
    let (part, s) ← keyPart? (skipSpace s)
    match skipSpace s with
    | '.' :: rest => do
      let (parts, s) ← keyParts? fuel rest
      return (part :: parts, s)
    | s => return ([part], s)

/-- Read a key. -/
def key? (s : List Char) : Option (List String × List Char) := do
  let (parts, s) ← keyParts? (s.length + 1) s
  if parts.length < depthLimit then some (parts, s) else none

/-! ## Values -/

mutual

/-- Read a value at a depth. -/
def value? : Nat → Nat → Reader Node
  | 0, _, _ => none
  | fuel + 1, depth, s =>
    match s with
    | '"' :: _ => (string? s).map fun (text, s) => (.string text, s)
    | '\'' :: _ => (string? s).map fun (text, s) => (.string text, s)
    | '[' :: rest =>
      if depth + 1 < depthLimit then
        (items? fuel (depth + 1) rest).map fun (items, s) => (.array items, s)
      else none
    | '{' :: rest =>
      if depth + 1 < depthLimit then
        match skipSpace rest with
        | '}' :: s => some (.inline [], s)
        | s => (inline? fuel (depth + 1) [] s).map fun (entries, s) => (.inline entries, s)
      else none
    | c :: _ => if c == '+' || c == '-' || c.isDigit then number? s else word? s
    | [] => none

/-- Read the items of an array and its closing bracket. -/
def items? : Nat → Nat → Reader (List Node)
  | 0, _, _ => none
  | fuel + 1, depth, s => do
    match ← skipLines s.length s with
    | ']' :: rest => return ([], rest)
    | s =>
      let (item, s) ← value? fuel depth s
      match ← skipLines s.length s with
      | ',' :: rest => do
        let (items, s) ← items? fuel depth rest
        return (item :: items, s)
      | ']' :: rest => return ([item], rest)
      | _ => none

/-- Read the entries of an inline table that is not empty, and its closing brace. -/
def inline? : Nat → Nat → Entries → Reader Entries
  | 0, _, _, _ => none
  | fuel + 1, depth, entries, s => do
    let (key, s) ← key? s
    let last ← key.getLast?
    let (node, s) ← value? fuel depth (skipSpace (← mark? '=' s))
    let entries ← entries.enter? key.dropLast last node
    match skipSpace s with
    | ',' :: rest => inline? fuel depth entries rest
    | '}' :: rest => return (entries, rest)
    | _ => none

end

/-! ## Documents -/

/-- A document that is being read: the tables that are complete, and the one that lines are added
    to, which stands at a path and may be an element of an array of tables. -/
structure Draft where
  complete : Entries
  current : Entries
  path : List String
  isElement : Bool

/-- Move the current table to its place. -/
def Draft.settle? (d : Draft) : Option Entries :=
  match d.path.getLast? with
  | none => some d.current
  | some key => do
    let (_, entries) ← d.complete.alterAt? false (fun _ below =>
      match below.lookup key with
      | none =>
        let node := if d.isElement then Node.tables [d.current] else .table .header d.current
        some ((), below ++ [(key, node)])
      | some (.tables elements) =>
        if d.isElement then some ((), below.set key (.tables (elements ++ [d.current]))) else none
      | some _ => none) d.path.dropLast .header
    return entries

/-- Begin the table of a header. A table that was only passed through is taken up again. -/
def Draft.openTable? (d : Draft) (path : List String) : Option Draft := do
  let entries ← d.settle?
  let key ← path.getLast?
  let (current, entries) ← entries.alterAt? false (fun _ below =>
    match below.lookup key with
    | none => some (([] : Entries), below)
    | some (.table .implied inner) => some (inner, below.filter (·.1 ≠ key))
    | some _ => none) path.dropLast .header
  return ⟨entries, current, path, false⟩

/-- Begin an element of the array of tables of a header. -/
def Draft.openElement? (d : Draft) (path : List String) : Option Draft := do
  let entries ← d.settle?
  let key ← path.getLast?
  let (_, entries) ← entries.alterAt? false (fun _ below =>
    match below.lookup key with
    | none => some ((), below)
    | some (.tables _) => some ((), below)
    | some _ => none) path.dropLast .header
  return ⟨entries, [], path, true⟩

/-- Read a header. -/
def Draft.header? (d : Draft) (s : List Char) : Option (Draft × List Char) :=
  match s with
  | '[' :: '[' :: rest => do
    let (path, s) ← key? rest
    let s ← endOfLine? (← mark? ']' (← mark? ']' s))
    return (← d.openElement? path, s)
  | '[' :: rest => do
    let (path, s) ← key? rest
    let s ← endOfLine? (← mark? ']' s)
    return (← d.openTable? path, s)
  | _ => none

/-- Read a key and its value. -/
def Draft.entry? (d : Draft) (s : List Char) : Option (Draft × List Char) := do
  let (key, s) ← key? s
  let last ← key.getLast?
  let s := skipSpace (← mark? '=' s)
  let (node, s) ← value? (2 * s.length + 2) 0 s
  let s ← endOfLine? s
  return ({ d with current := ← d.current.enter? key.dropLast last node }, s)

/-- Read the lines of a document; `fuel` bounds their number. -/
def Draft.lines? : Nat → Draft → List Char → Option Draft
  | 0, _, _ => none
  | fuel + 1, d, s =>
    match skipSpace s with
    | [] => some d
    | '#' :: rest => do d.lines? fuel (← endOfLine? ('#' :: rest))
    | '[' :: rest => do
      let (d, s) ← d.header? ('[' :: rest)
      d.lines? fuel s
    | s =>
      match newline? s with
      | some rest => d.lines? fuel rest
      | none => do
        let (d, s) ← d.entry? s
        d.lines? fuel s

/-- The entries of a document, or nothing if the text is not a TOML document. A byte order mark at
    the start is skipped. -/
def parse? (text : String) : Option Entries := do
  let s := match text.toList with
    | '\ufeff' :: rest => rest
    | s => s
  let d ← Draft.lines? (s.length + 1) ⟨[], [], [], false⟩ s
  d.settle?

end Workbench.Toml
