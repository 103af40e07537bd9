import Workbench.Host.Error
import Workbench.Host.Location
import Workbench.Text.Utf8
import Workbench.Tree

set_option autoImplicit false

/-! # The disk of the host

A tree of files with their permissions and a working directory, and the requests that the system
grants on it. A path is walked piece by piece, and every piece but the last has to lead to a
directory. What the last piece may be depends on the request. A request that is refused changes
nothing, but a job made of several requests keeps what it did before it was refused. -/

namespace Workbench.Host

/-- A tree of files, where each node has its permissions, and a working directory. -/
structure Disk where
  tree : Tree Nat
  cwd : List String
  deriving Inhabited

/-- The last piece of a path: a name, the directory itself, or the directory above it. -/
inductive Last where
  | name (name : String)
  | here
  | above
  | root
  deriving DecidableEq, Repr, Inhabited

/-- Where a path leads: an existing directory and the last piece, as seen from there. -/
structure Spot where
  dir : List String
  last : Last
  /-- Whether a slash follows the last piece. -/
  slash : Bool
  deriving DecidableEq, Repr, Inhabited

/-- The names that lead to a spot from the root. -/
def Spot.parts (s : Spot) : List String :=
  match s.last with
  | .name n => s.dir ++ [n]
  | .above => s.dir.dropLast
  | .here | .root => s.dir

/-- A job on the disk. What was done before a refusal stays done. -/
abbrev Job (α : Type) := ExceptT Error (StateM Disk) α

/-- Refuse a request. -/
def refuse {α : Type} (e : Errno) : Except Error α := .error (.system e)

namespace Disk

/-- The permissions of a new directory. -/
def dirMode : Nat := 0o755

/-- The permissions of a new file. -/
def fileMode : Nat := 0o644

/-- The disk that holds nothing but the root. -/
def empty : Disk := ⟨.dir [] dirMode, []⟩

/-- The longest name of a file, in bytes. -/
def maxName : Nat := 255

/-- The length in bytes from which on a path is too long. -/
def maxPath : Nat := 4096

/-! ## Walking a path -/

/-- Refuse a name that is too long. -/
def checkName (name : String) : Except Error Unit :=
  if name.utf8ByteSize > maxName then refuse .nameTooLong else .ok ()

/-- Go from a directory to another by one piece of a path. -/
def enter (d : Disk) (dir : List String) (piece : String) : Except Error (List String) :=
  if piece = "." then .ok dir
  else if piece = ".." then .ok dir.dropLast
  else do
    checkName piece
    match d.tree.get? (dir ++ [piece]) with
    | some (.dir ..) => .ok (dir ++ [piece])
    | some (.file ..) => refuse .notDir
    | none => refuse .noEntry

/-- Walk a path up to its last piece. -/
def walk (d : Disk) (text : String) : Except Error Spot :=
  if text.toList.contains '\x00' then
    .error (.fixed .invalidInput "file name contained an unexpected NUL byte")
  else if text.isEmpty then refuse .noEntry
  else if text.utf8ByteSize ≥ maxPath then refuse .nameTooLong
  else
    let pieces := (Location.pieces text).filter (· ≠ "")
    let start := if Location.isRooted text then [] else d.cwd
    match pieces.getLast? with
    | none => .ok ⟨[], .root, true⟩
    | some piece => do
      let dir ← pieces.dropLast.foldlM d.enter start
      let last := if piece = "." then .here else if piece = ".." then .above else .name piece
      return ⟨dir, last, text.toList.getLast? = some '/'⟩

/-- The node at a spot. -/
def node? (d : Disk) (s : Spot) : Option (Tree Nat) := d.tree.get? s.parts

/-- The spot of a path, where its last piece is a name that is not too long. Any other path is
    refused with an error of the user's choice. -/
def named (d : Disk) (text : String) (other : Last → Errno) : Except Error (Spot × String) := do
  let s ← d.walk text
  match s.last with
  | .name n =>
    checkName n
    return (s, n)
  | last => refuse (other last)

/-- The names that lead to what is at a path, and what is there. -/
def find (d : Disk) (text : String) : Except Error (List String × Tree Nat) := do
  let s ← d.walk text
  if let .name n := s.last then checkName n
  match d.node? s with
  | none => refuse .noEntry
  | some node => if s.slash && node.isFile then refuse .notDir else return (s.parts, node)

/-- Whether something is at a path. -/
def contains (d : Disk) (text : String) : Bool := (d.find text).toOption.isSome

/-- Whether a directory is at a path. -/
def isDir (d : Disk) (text : String) : Bool := (d.find text).toOption.any (·.2.isDir)

/-- The bytes of a file. -/
def read (d : Disk) (text : String) : Except Error ByteArray := do
  match (← d.find text).2 with
  | .file data _ => return data
  | .dir .. => refuse .isDir

/-- The text of a file. -/
def readText (d : Disk) (text : String) : Except Error String := do
  match Text.ofUtf8? (← d.read text) with
  | some content => return content
  | none => .error .notUtf8

/-- The children of a directory. -/
def list (d : Disk) (text : String) : Except Error (List (String × Tree Nat)) := do
  match (← d.find text).2 with
  | .dir children _ => return children
  | .file .. => refuse .notDir

/-! ## Single requests -/

/-- Put a node where a name leads. -/
def put (d : Disk) (parts : List String) (node : Tree Nat) : Disk :=
  { d with tree := d.tree.put id parts node }

/-- Take away what is where a name leads. -/
def erase (d : Disk) (parts : List String) : Disk := { d with tree := d.tree.erase id parts }

/-- Open a file for writing, with what is in it; it is created if nothing is there. A file that
    exists keeps its permissions. -/
def openFile (d : Disk) (text : String) (mode : Nat) :
    Except Error (List String × ByteArray × Nat) := do
  let s ← d.walk text
  match s.last with
  | .name n =>
    if s.slash then refuse .isDir
    checkName n
    match d.node? s with
    | none => return (s.parts, .empty, mode)
    | some (.file data mode) => return (s.parts, data, mode)
    | some (.dir ..) => refuse .isDir
  | _ => refuse .isDir

/-- Replace the bytes of a file by a function of them, creating it if nothing is there. -/
def alter (d : Disk) (text : String) (mode : Nat) (f : ByteArray → ByteArray) :
    Except Error Disk := do
  let (parts, data, mode) ← d.openFile text mode
  return d.put parts (.file (f data) mode)

/-- Make a directory. -/
def makeDir (d : Disk) (text : String) : Except Error Disk := do
  let (s, _) ← d.named text fun _ => .fileExists
  if (d.node? s).isSome then refuse .fileExists
  return d.put s.parts (.dir [] dirMode)

/-- Remove a file. -/
def unlink (d : Disk) (text : String) : Except Error Disk := do
  let (s, _) ← d.named text fun _ => .isDir
  match d.node? s with
  | none => refuse .noEntry
  | some (.dir ..) => refuse .isDir
  | some (.file ..) => if s.slash then refuse .notDir else return d.erase s.parts

/-- Remove an empty directory. -/
def removeDir (d : Disk) (text : String) : Except Error Disk := do
  let (s, _) ← d.named text fun
    | .here => .invalid
    | .above => .notEmpty
    | _ => .busy
  match d.node? s with
  | none => refuse .noEntry
  | some (.file ..) => refuse .notDir
  | some (.dir [] _) => return d.erase s.parts
  | some (.dir (_ :: _) _) => refuse .notEmpty

/-- Move a node to the place of another of its kind or to where nothing is. -/
def rename (d : Disk) (sourceText targetText : String) : Except Error Disk := do
  let (source, _) ← d.named sourceText fun _ => .busy
  let (target, _) ← d.named targetText fun _ => .busy
  match d.node? source with
  | none => refuse .noEntry
  | some node =>
    if node.isFile && (source.slash || target.slash) then refuse .notDir
    if source.parts = target.parts then return d
    if source.parts.isPrefixOf target.parts then refuse .invalid
    if target.parts.isPrefixOf source.parts then refuse .notEmpty
    match node.isDir, d.node? target with
    | true, some (.file ..) => refuse .notDir
    | false, some (.dir ..) => refuse .isDir
    | true, some (.dir (_ :: _) _) => refuse .notEmpty
    | _, _ => return (d.erase source.parts).put target.parts node

end Disk

/-! ## Requests as jobs -/

namespace Job

/-- Ask for something that changes nothing. -/
def ask {α : Type} (request : Disk → Except Error α) : Job α := do
  match request (← get) with
  | .ok answer => return answer
  | .error e => throw e

/-- Ask for a change. -/
def change (request : Disk → Except Error Disk) : Job Unit := do
  match request (← get) with
  | .ok d => set d
  | .error e => throw e

/-- Go on after a refusal of a certain kind. -/
def allow (kind : ErrorKind) (job : Job Unit) : Job Unit :=
  tryCatch job fun e => if e.kind = kind then return else throw e

/-- Do a job, ignoring whether it was refused. -/
def attempt (job : Job Unit) : Job Unit := tryCatch job fun _ => return

end Job

end Workbench.Host
