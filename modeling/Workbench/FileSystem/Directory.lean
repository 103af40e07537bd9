import Workbench.FileSystem.Descriptor

set_option autoImplicit false

/-! # Operations on paths

Making, removing, moving and listing files and directories. Most operations check everything before
they change anything: these fail with an error or yield the file system that follows. Making a
directory with those above it, writing a file, and moving a directory can fail on the way, so they
yield the file system as it stands then beside their result. -/

namespace Workbench.FileSystem

/-- Make a directory in a directory that exists. -/
def makeDirHere (fs : FileSystem) (p : Path) : Except Error FileSystem := do
  if (fs.keyOf? p).isSome then throw (.alreadyExists p.toString)
  fs.requireParent p
  return fs.putDir p

/-- Make a directory, with the missing ones above it if `recursive` is set. -/
def makeDir (fs : FileSystem) (text : String) (recursive : Bool) : Except Error Unit × FileSystem :=
  match fs.resolve text with
  | .error e => (.error e, fs)
  | .ok p =>
    if recursive then fs.makeDirs p
    else
      match fs.makeDirHere p with
      | .error e => (.error e, fs)
      | .ok fs => (.ok (), fs)

/-- Remove an empty directory other than the root. -/
def removeDir (fs : FileSystem) (text : String) : Except Error FileSystem := do
  let p ← fs.resolve text
  if p.isRoot then throw (.invalidArgument "cannot remove /")
  match fs.nodes.get? p.dirKey with
  | some (.dir (_ :: _) _) => throw (.notEmpty p.toString)
  | some _ => return (fs.remove p.dirKey).unlinkName p
  | none => throw (if fs.isFile p then .notDirectory p.toString else .notFound p.toString)

/-- Remove a file. -/
def unlink (fs : FileSystem) (text : String) : Except Error FileSystem := do
  let p ← fs.resolve text
  if !fs.isFile p then
    throw (if fs.isDir p then .isDirectory p.toString else .notFound p.toString)
  return (fs.remove p.fileKey).unlinkName p

/-! ## Moving -/

/-- What a move comes to once it is allowed. -/
inductive Move where
  /-- The two paths are one. -/
  | none
  | file (source target : Path)
  | dir (source target : Path)
  deriving DecidableEq, Repr

/-- Decide on a move. Nothing may be at the target, the directory that is to hold it has to exist,
    and a directory cannot move into itself. -/
def planMove (fs : FileSystem) (sourceText targetText : String) : Except Error Move := do
  let source ← fs.resolve sourceText
  let target ← fs.resolve targetText
  if source.isRoot || target.isRoot then throw (.invalidArgument "cannot rename /")
  if source.toString = target.toString then return .none
  match fs.keyOf? source with
  | none => throw (.notFound source.toString)
  | some key =>
    if (fs.keyOf? target).isSome then throw (.alreadyExists target.toString)
    fs.requireParent target
    if key.toList.getLast? = some '/' then
      if target.liesUnder source.dirKey then
        throw (.invalidArgument ("cannot move " ++ source.toString ++ " into itself"))
      return .dir source target
    return .file source target

/-- The key that begins with `new` where a key begins with `old`. -/
def rebase (old new key : String) : Option String :=
  (Text.strip? old.toList key.toList).map fun rest => new ++ String.ofList rest

/-- Move the node under one key to another. -/
def moveNode (nodes : Dictionary String Node) (source target : String) : Dictionary String Node :=
  match nodes.get? source with
  | some node => (nodes.remove source).put target node
  | none => nodes

/-- Carry out moves from key to key, one after the other. -/
def moveEach (moves : List (String × String)) (nodes : Dictionary String Node) :
    Dictionary String Node :=
  moves.foldl (fun nodes (source, target) => moveNode nodes source target) nodes

/-- The moves from every key that begins with `old` to the key that begins with `new` instead. -/
def movesUnder (old new : String) (nodes : Dictionary String Node) : List (String × String) :=
  nodes.keys.filterMap fun key => (rebase old new key).map (key, ·)

/-- Move every node whose key begins with `old` to the key that begins with `new` instead. -/
def moveNodes (old new : String) (nodes : Dictionary String Node) : Dictionary String Node :=
  moveEach (movesUnder old new nodes) nodes

/-- Let the descriptors of a moved file follow it. -/
def followFile (source target : Path) (descriptors : Dictionary Nat Descriptor) :
    Dictionary Nat Descriptor :=
  descriptors.map fun (n, d) =>
    if d.path.toString = source.toString then (n, { d with path := target }) else (n, d)

/-- Let what was opened in a moved directory, or as that directory, follow it. Each path is read
    again from its new text; a text that is no path ends it there. -/
def followDir (source target : Path) :
    Dictionary Nat Descriptor → Except Error Unit × Dictionary Nat Descriptor
  | [] => (.ok (), [])
  | (n, d) :: rest =>
    if d.path.liesUnder source.dirKey then
      match Path.parse (target.toString ++
          String.ofList (d.path.toString.toList.drop source.toString.length)) with
      | .error e => (.error (.ofPath e), (n, d) :: rest)
      | .ok path =>
        let (result, rest) := followDir source target rest
        (result, (n, { d with path := path }) :: rest)
    else
      let (result, rest) := followDir source target rest
      (result, (n, d) :: rest)

/-- Change the names in the two directories that a move concerns. -/
def relink (fs : FileSystem) (source target : Path) : FileSystem :=
  (fs.unlinkName source).link target

/-- Carry out a move: the nodes first, then the descriptors, then the names. -/
def carryOut (fs : FileSystem) : Move → Except Error Unit × FileSystem
  | .none => (.ok (), fs)
  | .file source target =>
    let moved := { fs with
      nodes := moveNode fs.nodes source.fileKey target.fileKey
      descriptors := followFile source target fs.descriptors }
    (.ok (), moved.relink source target)
  | .dir source target =>
    let (result, descriptors) := followDir source target fs.descriptors
    let moved := { fs with
      nodes := moveNodes source.dirKey target.dirKey fs.nodes
      descriptors := descriptors }
    match result with
    | .error e => (.error e, moved)
    | .ok () => (.ok (), moved.relink source target)

/-- Move a file, or a directory with all that is in it, to a place where nothing is. -/
def rename (fs : FileSystem) (sourceText targetText : String) : Except Error Unit × FileSystem :=
  match fs.planMove sourceText targetText with
  | .error e => (.error e, fs)
  | .ok move => fs.carryOut move

/-! ## Times, lengths and listings -/

/-- Set the times of access and modification. -/
def setTimes (fs : FileSystem) (text : String) (accessed modified : Time) :
    Except Error FileSystem := do
  let p ← fs.resolve text
  match fs.keyOf? p with
  | none => throw (.notFound p.toString)
  | some key =>
    let change (node : Node) : Node :=
      node.withTimes { node.times with accessed := accessed, modified := modified }
    return { fs with nodes := fs.nodes.update key change }

/-- Cut or zero-fill a file. -/
def truncate (fs : FileSystem) (text : String) (length : Nat) : Except Error FileSystem := do
  let length ← boundedEnd length 0
  let p ← fs.resolve text
  let (data, times) ← fs.file p
  return fs.setFile p (resize data length) { times with modified := fs.clock }

/-- The names in a directory, in the order in which they were added. -/
def readDir (fs : FileSystem) (text : String) : Except Error (List String) := do
  let p ← fs.resolve text
  match fs.nodes.get? p.dirKey with
  | some (.dir names _) => return names
  | _ => throw (if fs.isFile p then .notDirectory p.toString else .notFound p.toString)

/-- Create or replace a file, with the directories above it. -/
def writeFile (fs : FileSystem) (text : String) (data : ByteArray) :
    Except Error Unit × FileSystem :=
  match fs.resolve text with
  | .error e => (.error e, fs)
  | .ok p =>
    if fs.isDir p then (.error (.isDirectory p.toString), fs)
    else fs.placeFile p data

/-- Whether something is at a path. Nothing is fetched to find out. -/
def contains (fs : FileSystem) (text : String) : Bool :=
  match fs.resolve text with
  | .ok p => (fs.find? p).isSome
  | .error _ => false

end Workbench.FileSystem
