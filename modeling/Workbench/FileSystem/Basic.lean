import Workbench.Dictionary
import Workbench.FileSystem.Error
import Workbench.FileSystem.Node

set_option autoImplicit false

/-! # The in-memory file system

A table of nodes, a table of open descriptors, a working directory, and two buffers that gather what
is written to the standard streams. The table of nodes is flat: a file is kept under its path, a
directory under its path with a slash at the end, and the names in a directory are noted once more
in its node. Operations change the two separately, so that a name without a node, a node without a
name, or a file and a directory at one path could all be written down; that none of them ever is,
is an invariant of the operations.

Descriptors refer to files by path: a descriptor whose file was removed or replaced keeps its path
and sees what is there now. The clock is a field that the user of the file system sets; every
operation stamps with it. An operation that may fail after it has begun to change something leaves
the file system as it stands then, beside its result. -/

namespace Workbench

/-- How a file is opened. Without `writeOnly` and `readWrite` it is opened for reading. -/
structure OpenMode where
  writeOnly : Bool
  readWrite : Bool
  create : Bool
  exclusive : Bool
  truncate : Bool
  append : Bool
  deriving DecidableEq, Repr, Inhabited

namespace OpenMode

/-- The mode in a word of flags; bits that mean nothing here are ignored. -/
def ofBits (bits : Nat) : OpenMode where
  writeOnly := bits.testBit 0
  readWrite := bits.testBit 1
  create := bits.testBit 6
  exclusive := bits.testBit 7
  truncate := bits.testBit 9
  append := bits.testBit 10

/-- The word of flags of a mode. -/
def bits (m : OpenMode) : Nat :=
  let flag (set : Bool) (value : Nat) := if set then value else 0
  flag m.writeOnly 0o1 + flag m.readWrite 0o2 + flag m.create 0o100 + flag m.exclusive 0o200 +
    flag m.truncate 0o1000 + flag m.append 0o2000

/-- Opening for reading only. -/
def readOnly : OpenMode := ⟨false, false, false, false, false, false⟩

/-- Whether a descriptor of this mode may be read. -/
def readable (m : OpenMode) : Bool := !m.writeOnly

/-- Whether a descriptor of this mode may be written. -/
def writable (m : OpenMode) : Bool := m.writeOnly || m.readWrite

end OpenMode

/-- An open file or directory. -/
structure Descriptor where
  path : Path
  mode : OpenMode
  /-- Where the next read or write starts. -/
  cursor : Nat
  /-- Whether a directory was opened. -/
  isDir : Bool
  deriving DecidableEq, Repr, Inhabited

/-- The file system. -/
structure FileSystem where
  nodes : Dictionary String Node
  descriptors : Dictionary Nat Descriptor
  /-- The number that is handed out next. It is taken to be as large as it has to be; a counter of 32
      bits shows the same as long as less than `2 ^ 32 - 3` descriptors were handed out. -/
  nextDescriptor : Nat
  cwd : Path
  stdout : ByteArray
  stderr : ByteArray
  clock : Time
  deriving Inhabited

/-- What a file or directory looks like from outside. -/
structure Stat where
  isDir : Bool
  size : Nat
  /-- The type of the node and its permissions, as a word. -/
  mode : Nat
  times : Times
  deriving DecidableEq, Repr, Inhabited

namespace FileSystem

/-- The number of standard streams, which is also the first number that `open` hands out. -/
def firstDescriptor : Nat := 3

/-- The largest size of a file. -/
def maxFileSize : Nat := Nat.pow 2 30

/-- A file system that holds the root alone. -/
def empty (clock : Time) : FileSystem where
  nodes := [(Path.root.dirKey, .emptyDir clock)]
  descriptors := []
  nextDescriptor := firstDescriptor
  cwd := .root
  stdout := .empty
  stderr := .empty
  clock := clock

/-! ## Looking at the nodes -/

/-- Whether a directory is at the path. -/
def isDir (fs : FileSystem) (p : Path) : Bool := (fs.nodes.get? p.dirKey).any Node.isDir

/-- Whether a file is at the path. -/
def isFile (fs : FileSystem) (p : Path) : Bool := (fs.nodes.get? p.fileKey).any Node.isFile

/-- The node at a path; a path spelled as a directory leads to directories only. -/
def find? (fs : FileSystem) (p : Path) : Option Node :=
  if p.trailing then (fs.nodes.get? p.dirKey).filter Node.isDir
  else
    match fs.nodes.get? p.fileKey with
    | some (.file data times) => some (.file data times)
    | _ => fs.nodes.get? p.dirKey

/-- The key of the node at a path, however the path was spelled. -/
def keyOf? (fs : FileSystem) (p : Path) : Option String :=
  if fs.isFile p then some p.fileKey
  else if (fs.nodes.get? p.dirKey).isSome then some p.dirKey
  else none

/-- The error for a path that leads nowhere. -/
def missing (fs : FileSystem) (p : Path) : Error :=
  if p.trailing && fs.isFile p then .notDirectory p.toString else .notFound p.toString

/-- The bytes and times of the file at a path. A file is looked for under the key of a file, so a
    directory other than the root is not found. -/
def file (fs : FileSystem) (p : Path) : Except Error (ByteArray × Times) :=
  match fs.nodes.get? p.fileKey with
  | some (.file data times) => .ok (data, times)
  | some (.dir ..) => .error (.isDirectory p.toString)
  | none => .error (.notFound p.toString)

/-- What is shown of a node. -/
def statOf : Node → Stat
  | .file data times => ⟨false, data.size, 0o100644, times⟩
  | .dir _ times => ⟨true, 0, 0o040755, times⟩

/-- Succeed if the directory that would hold the path exists. -/
def requireParent (fs : FileSystem) (p : Path) : Except Error Unit :=
  match p.parent? with
  | none => .ok ()
  | some parent =>
    if fs.isDir parent then .ok ()
    else if fs.isFile parent then .error (.notDirectory parent.toString)
    else .error (.notFound parent.toString)

/-! ## Changing the nodes -/

/-- Keep a node under a key. -/
def put (fs : FileSystem) (key : String) (node : Node) : FileSystem :=
  { fs with nodes := fs.nodes.put key node }

/-- Take away the node under a key. -/
def remove (fs : FileSystem) (key : String) : FileSystem :=
  { fs with nodes := fs.nodes.remove key }

/-- Note the name of a path in the directory that holds it. -/
def link (fs : FileSystem) (p : Path) : FileSystem :=
  match p.parent?, p.fileName? with
  | some parent, some name =>
    { fs with nodes := fs.nodes.update parent.dirKey (·.addName fs.clock name) }
  | _, _ => fs

/-- Strike the name of a path from the directory that holds it. -/
def unlinkName (fs : FileSystem) (p : Path) : FileSystem :=
  match p.parent?, p.fileName? with
  | some parent, some name =>
    { fs with nodes := fs.nodes.update parent.dirKey (·.dropName fs.clock name) }
  | _, _ => fs

/-- Put a file at a path, in place of the one that is there. -/
def putFile (fs : FileSystem) (p : Path) (data : ByteArray) : FileSystem :=
  (fs.put p.fileKey (.file data (.stamp fs.clock))).link p

/-- Put a new directory at a path. -/
def putDir (fs : FileSystem) (p : Path) : FileSystem :=
  (fs.put p.dirKey (.emptyDir fs.clock)).link p

/-- Change the bytes and times of the file at a path, without a trace in its directory. -/
def setFile (fs : FileSystem) (p : Path) (data : ByteArray) (times : Times) : FileSystem :=
  fs.put p.fileKey (.file data times)

/-- Make those of some directories that are missing, one after the other, up to the first that
    cannot be made. -/
def makeEach : List Path → FileSystem → Except Error Unit × FileSystem
  | [], fs => (.ok (), fs)
  | dir :: rest, fs =>
    if fs.isDir dir then makeEach rest fs
    else if fs.isFile dir then (.error (.notDirectory dir.toString), fs)
    else makeEach rest (fs.putDir dir)

/-- Make every missing directory on the way down to the path, and the path itself. -/
def makeDirs (fs : FileSystem) (p : Path) : Except Error Unit × FileSystem :=
  makeEach (p.ancestors ++ [p]) fs

/-- Make the directories above a path. -/
def makeParents (fs : FileSystem) (p : Path) : Except Error Unit × FileSystem :=
  match p.parent? with
  | none => (.ok (), fs)
  | some parent => fs.makeDirs parent

/-- Put a file at a path, with the directories above it. -/
def placeFile (fs : FileSystem) (p : Path) (data : ByteArray) : Except Error Unit × FileSystem :=
  match fs.makeParents p with
  | (.error e, fs) => (.error e, fs)
  | (.ok (), fs) => (.ok (), fs.putFile p data)

/-! ## Paths -/

/-- Read a path as seen from the working directory. -/
def resolve (fs : FileSystem) (text : String) : Except Error Path :=
  (fs.cwd.resolve text).mapError Error.ofPath

/-- Change the working directory. -/
def chdir (fs : FileSystem) (text : String) : Except Error FileSystem := do
  let p ← fs.resolve text
  if fs.isDir p then .ok { fs with cwd := p } else .error (fs.missing p)

end FileSystem

end Workbench
