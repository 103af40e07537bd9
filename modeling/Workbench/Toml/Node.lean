set_option autoImplicit false

/-! # TOML documents as trees

The tree that a TOML document denotes while it is being read. Beside its entries a table remembers
how it came to be, because that decides how it may still be extended: a table with a header of its
own may not be opened again, a table that dotted keys made may only be extended by dotted keys, and
a table that was only passed through on the way to another may still get a header. Inline tables are
closed. Dates and floating-point numbers are checked when they are read, but their values are not
kept. -/

namespace Workbench.Toml

/-- How a table came to be. -/
inductive Origin where
  /-- It has a header. -/
  | header
  /-- It lies on the way to a table with a header. -/
  | implied
  /-- Dotted keys made it. -/
  | dotted
  deriving DecidableEq, Repr, Inhabited

/-- A value of a document. -/
inductive Node where
  | string (text : String)
  | integer (value : Int)
  | float
  | boolean (value : Bool)
  | datetime
  | array (items : List Node)
  | inline (entries : List (String × Node))
  | table (origin : Origin) (entries : List (String × Node))
  | tables (elements : List (List (String × Node)))
  deriving Inhabited

/-- The entries of a table. -/
abbrev Entries := List (String × Node)

namespace Entries

/-- Put a value under a key, in the place of the one that is there. -/
def set (key : String) (node : Node) : Entries → Entries
  | [] => [(key, node)]
  | (k, n) :: rest => if k = key then (k, node) :: rest else (k, n) :: set key node rest

/-- Add a value under a new key; a key that is taken is refused. -/
def add? (key : String) (node : Node) (entries : Entries) : Option Entries :=
  if (entries.lookup key).isSome then none else some (entries ++ [(key, node)])

/-- Change the table that a list of keys leads to, making the tables that are missing on the way.
    Dotted keys must not pass through a table that has a header; headers pass into the last element
    of an array of tables. -/
def alterAt? {β : Type} (byDots : Bool) (f : Origin → Entries → Option (β × Entries)) :
    List String → Origin → Entries → Option (β × Entries)
  | [], origin, entries => f origin entries
  | key :: path, _, entries =>
    match entries.lookup key with
    | none => do
      let origin := if byDots then .dotted else .implied
      let (result, below) ← alterAt? byDots f path origin []
      return (result, entries ++ [(key, .table origin below)])
    | some (.table origin below) =>
      if byDots && origin == .header then none
      else do
        let (result, below) ← alterAt? byDots f path origin below
        return (result, set key (.table origin below) entries)
    | some (.tables elements) => do
      let last ← elements.getLast?
      let (result, below) ← alterAt? byDots f path .header last
      return (result, set key (.tables (elements.dropLast ++ [below])) entries)
    | some _ => none

/-- Enter a value under a dotted key, given by the keys before the last and the last. A table that
    dotted keys made is entered by dotted keys only, any other by plain keys only. -/
def enter? (path : List String) (key : String) (node : Node) (entries : Entries) :
    Option Entries := do
  let (_, entries) ← alterAt? true (fun origin below =>
    if (origin == .dotted) == path.isEmpty then none
    else (add? key node below).map ((), ·)) path .header entries
  return entries

end Entries

end Workbench.Toml
