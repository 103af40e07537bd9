set_option autoImplicit false

/-! # Nodes

A node of the in-memory file system is a file with its bytes, or a directory with the names in it in
the order in which they were added. Both have times. A directory holds names only: what is behind a
name is kept in the table of nodes. -/

namespace Workbench

/-- A point in time: seconds since the epoch and nanoseconds into that second. -/
structure Time where
  seconds : Int
  nanos : Nat
  deriving DecidableEq, Repr, Inhabited

/-- The times kept for a file or directory. -/
structure Times where
  accessed : Time
  modified : Time
  changed : Time
  deriving DecidableEq, Repr, Inhabited

/-- All three times at one moment. -/
def Times.stamp (t : Time) : Times := ⟨t, t, t⟩

/-- A file or a directory. -/
inductive Node where
  | file (data : ByteArray) (times : Times)
  | dir (names : List String) (times : Times)
  deriving Inhabited

namespace Node

/-- A new directory. -/
def emptyDir (now : Time) : Node := .dir [] (.stamp now)

/-- Whether the node is a directory. -/
def isDir : Node → Bool
  | .dir .. => true
  | .file .. => false

/-- Whether the node is a file. -/
def isFile : Node → Bool
  | .file .. => true
  | .dir .. => false

/-- The names in a directory. -/
def names : Node → List String
  | .dir names _ => names
  | .file .. => []

/-- The times of a node. -/
def times : Node → Times
  | .file _ times => times
  | .dir _ times => times

/-- Replace the times of a node. -/
def withTimes (times : Times) : Node → Node
  | .file data _ => .file data times
  | .dir names _ => .dir names times

/-- Add a name to a directory, which is modified if the name is new. -/
def addName (now : Time) (name : String) : Node → Node
  | .dir names times =>
    if name ∈ names then .dir names times
    else .dir (names ++ [name]) { times with modified := now }
  | node => node

/-- Take a name out of a directory, which is modified if the name was there. -/
def dropName (now : Time) (name : String) : Node → Node
  | .dir names times =>
    if name ∈ names then .dir (names.filter (· ≠ name)) { times with modified := now }
    else .dir names times
  | node => node

end Node

end Workbench
