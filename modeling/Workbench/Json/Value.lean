set_option autoImplicit false

/-! # JSON values and their text

A value keeps the entries of an object in the order given and a number as it is written. The text of
a value has one item on a line and two blanks of indentation for each level; empty arrays and
objects stay on one line. -/

namespace Workbench

/-- A JSON value. -/
inductive JsonValue where
  | null
  | boolean (value : Bool)
  /-- A number, by its numeral. -/
  | number (numeral : String)
  | string (text : String)
  | array (items : List JsonValue)
  | object (entries : List (String × JsonValue))
  deriving Inhabited

namespace JsonValue

/-- The escape of a control character that has no letter of its own. -/
def controlEscape (c : Char) : List Char :=
  ['\\', 'u', '0', '0', Nat.digitChar (c.toNat / 16), Nat.digitChar (c.toNat % 16)]

/-- A character inside quotes. -/
def escape (c : Char) : List Char :=
  if c = '"' then ['\\', '"']
  else if c = '\\' then ['\\', '\\']
  else if c = '\x08' then ['\\', 'b']
  else if c = '\x0c' then ['\\', 'f']
  else if c = '\n' then ['\\', 'n']
  else if c = '\r' then ['\\', 'r']
  else if c = '\t' then ['\\', 't']
  else if c < ' ' then controlEscape c
  else [c]

/-- A text in quotes. -/
def quote (text : String) : String :=
  String.ofList ('"' :: (text.toList.flatMap escape ++ ['"']))

/-- A line break and the indentation of a level. -/
def newline (level : Nat) : String := String.ofList ('\n' :: List.replicate (2 * level) ' ')

mutual

/-- The text of a value that stands at a level. -/
def render (level : Nat) : JsonValue → String
  | .null => "null"
  | .boolean value => if value then "true" else "false"
  | .number numeral => numeral
  | .string text => quote text
  | .array [] => "[]"
  | .array (item :: items) =>
    "[" ++ newline (level + 1) ++ render (level + 1) item ++ renderItems (level + 1) items ++
      newline level ++ "]"
  | .object [] => "\x7b\x7d"
  | .object ((key, value) :: entries) =>
    "\x7b" ++ newline (level + 1) ++ quote key ++ ": " ++ render (level + 1) value ++
      renderEntries (level + 1) entries ++ newline level ++ "\x7d"

/-- The items after the first. -/
def renderItems (level : Nat) : List JsonValue → String
  | [] => ""
  | item :: items => "," ++ newline level ++ render level item ++ renderItems level items

/-- The entries after the first. -/
def renderEntries (level : Nat) : List (String × JsonValue) → String
  | [] => ""
  | (key, value) :: entries =>
    "," ++ newline level ++ quote key ++ ": " ++ render level value ++ renderEntries level entries

end

/-- The text of a value. -/
def toText (v : JsonValue) : String := render 0 v

end JsonValue

end Workbench
