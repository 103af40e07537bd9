set_option autoImplicit false

/-! # Directory trees

A tree of files and directories, each with attributes of a type of the user's choice. A directory
lists its children by name in the order in which they were added. Nodes are addressed by the list of
names that leads to them from the root. Adding or removing a name changes the attributes of the
directory that holds it, replacing the node behind a name does not. -/

namespace Workbench

/-- A file with its bytes, or a directory with its named children. -/
inductive Tree (α : Type) where
  | file (data : ByteArray) (attributes : α)
  | dir (children : List (String × Tree α)) (attributes : α)
  deriving Inhabited

namespace Tree

variable {α : Type}

/-- The attributes of the topmost node. -/
def attributes : Tree α → α
  | .file _ a => a
  | .dir _ a => a

/-- Replace the attributes of the topmost node. -/
def withAttributes (a : α) : Tree α → Tree α
  | .file data _ => .file data a
  | .dir children _ => .dir children a

/-- Whether the topmost node is a directory. -/
def isDir : Tree α → Bool
  | .dir .. => true
  | .file .. => false

/-- Whether the topmost node is a file. -/
def isFile (t : Tree α) : Bool := !t.isDir

/-- The child of a directory under a name. -/
def child? (t : Tree α) (name : String) : Option (Tree α) :=
  match t with
  | .dir children _ => children.lookup name
  | .file .. => none

/-- The names in a directory. -/
def names : Tree α → List String
  | .dir children _ => children.map Prod.fst
  | .file .. => []

/-- The node that a list of names leads to. -/
def get? : Tree α → List String → Option (Tree α)
  | t, [] => some t
  | t, name :: path =>
    match t.child? name with
    | some node => node.get? path
    | none => none

/-- Replace the node behind a name of an association list, keeping its place. -/
def replaceNode (name : String) (node : Tree α) :
    List (String × Tree α) → List (String × Tree α)
  | [] => []
  | (n, t) :: rest => if n = name then (n, node) :: rest else (n, t) :: replaceNode name node rest

/-- Put a node behind a name of a directory. A new name is added at the end, and `touch` then
    changes the attributes of the directory. -/
def setChild (touch : α → α) (name : String) (node : Tree α) : Tree α → Tree α
  | .dir children a =>
    if (children.lookup name).isSome then .dir (replaceNode name node children) a
    else .dir (children ++ [(name, node)]) (touch a)
  | .file data a => .file data a

/-- Take a name out of a directory; `touch` changes the attributes if it was there. -/
def dropChild (touch : α → α) (name : String) : Tree α → Tree α
  | .dir children a =>
    if (children.lookup name).isSome then .dir (children.filter (·.1 ≠ name)) (touch a)
    else .dir children a
  | .file data a => .file data a

/-- Change the node that a list of names leads to, if there is one. -/
def modify (f : Tree α → Tree α) : List String → Tree α → Tree α
  | [], t => f t
  | name :: path, .dir children a =>
    match children.lookup name with
    | some node => .dir (replaceNode name (modify f path node) children) a
    | none => .dir children a
  | _ :: _, .file data a => .file data a

/-- Put a node at a place; the directory that is to hold it has to exist. -/
def put (t : Tree α) (touch : α → α) (path : List String) (node : Tree α) : Tree α :=
  match path.getLast? with
  | none => node
  | some name => t.modify (setChild touch name node) path.dropLast

/-- Take away the node at a place, with all that is below it. The root stays. -/
def erase (t : Tree α) (touch : α → α) (path : List String) : Tree α :=
  match path.getLast? with
  | none => t
  | some name => t.modify (dropChild touch name) path.dropLast

mutual

/-- Every node with the names that lead to it, each directory before its children. -/
def entries (above : List String) : Tree α → List (List String × Tree α)
  | .file data a => [(above, .file data a)]
  | .dir children a => (above, .dir children a) :: entriesBelow above children

/-- The entries of the children of a directory. -/
def entriesBelow (above : List String) : List (String × Tree α) → List (List String × Tree α)
  | [] => []
  | (name, node) :: rest => entries (above ++ [name]) node ++ entriesBelow above rest

end

end Tree

end Workbench
