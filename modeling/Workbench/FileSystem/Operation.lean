import Workbench.Asset.Mount
import Workbench.FileSystem.Directory

set_option autoImplicit false

/-! # The operations of the file system as data

Opening, looking at and reading a file first fetch it if it is a mounted asset that is not there
yet. These three join the others in one type of operations, and `perform` runs an operation on a
file system and the world behind its mount. Statements about every use of the file system are
statements about lists of operations. -/

namespace Workbench.FileSystem

variable {World : Type}

/-! ## Fetching on first touch -/

/-- Fetch the file at a path from the mount, if nothing is there and the mount covers it. An asset
    that does not exist is no error: the path stays empty. -/
def populate (mount : Option (Asset.Mount World)) (fs : FileSystem) (world : World) (p : Path) :
    Except Error Unit × FileSystem × World :=
  if (fs.find? p).isSome then (.ok (), fs, world)
  else
    match mount with
    | none => (.ok (), fs, world)
    | some mount =>
      if p.trailing || !mount.covers p then (.ok (), fs, world)
      else
        match mount.fetch world p.toString with
        | (.ok bytes, world) =>
          let (result, fs) := fs.placeFile p bytes
          (result, fs, world)
        | (.error (.notFound _), world) => (.ok (), fs, world)
        | (.error cause, world) => (.error (.fetch p.toString cause), fs, world)

/-- Resolve a path, fetch what is there, and go on with a local operation. -/
def withFetched {α : Type} (mount : Option (Asset.Mount World)) (fs : FileSystem) (world : World)
    (text : String) (act : FileSystem → Path → Except Error α × FileSystem) :
    Except Error α × FileSystem × World :=
  match fs.resolve text with
  | .error e => (.error e, fs, world)
  | .ok p =>
    match populate mount fs world p with
    | (.error e, fs, world) => (.error e, fs, world)
    | (.ok (), fs, world) =>
      let (result, fs) := act fs p
      (result, fs, world)

/-- Create the file that is to be opened, where the mode asks for it. -/
def createFor (fs : FileSystem) (p : Path) (mode : OpenMode) : Except Error FileSystem :=
  if !mode.create then .ok fs
  else if (fs.find? p).isSome then
    if mode.exclusive then .error (.alreadyExists p.toString) else .ok fs
  else if p.trailing then .ok fs
  else (fs.requireParent p).map fun _ => fs.putFile p .empty

/-- Enter a descriptor into the table under the next number. -/
def addDescriptor (fs : FileSystem) (d : Descriptor) : Except Error Nat × FileSystem :=
  (.ok fs.nextDescriptor, { fs with
    descriptors := fs.descriptors.put fs.nextDescriptor d
    nextDescriptor := fs.nextDescriptor + 1 })

/-- Open the file at a path, emptying it where the mode asks for it. -/
def openFile (fs : FileSystem) (mode : OpenMode) (p : Path) : Except Error Nat × FileSystem :=
  match fs.file p with
  | .error e => (.error e, fs)
  | .ok (data, times) =>
    let data' := if mode.truncate then ByteArray.empty else data
    let fs := if mode.truncate then fs.setFile p data' { times with modified := fs.clock } else fs
    fs.addDescriptor ⟨p, mode, if mode.append then data'.size else 0, false⟩

/-- Open what is at a path, after creating it where the mode asks for it. -/
def openLocal (mode : OpenMode) (fs : FileSystem) (p : Path) : Except Error Nat × FileSystem :=
  match fs.createFor p mode with
  | .error e => (.error e, fs)
  | .ok fs =>
    match fs.find? p with
    | none => (.error (fs.missing p), fs)
    | some (.dir ..) =>
      if mode.writable || mode.truncate then (.error (.isDirectory p.toString), fs)
      else fs.addDescriptor ⟨p, mode, 0, true⟩
    | some (.file ..) => fs.openFile mode p

/-- Show what is at a path. -/
def statLocal (fs : FileSystem) (p : Path) : Except Error Stat × FileSystem :=
  match fs.find? p with
  | some node => (.ok (statOf node), fs)
  | none => (.error (fs.missing p), fs)

/-- Read all of the file at a path. -/
def readLocal (fs : FileSystem) (p : Path) : Except Error ByteArray × FileSystem :=
  match fs.file p with
  | .error e => (.error e, fs)
  | .ok (data, times) => (.ok data, fs.setFile p data { times with accessed := fs.clock })

/-- Open a path and return the number of the new descriptor. -/
def openPath (mount : Option (Asset.Mount World)) (fs : FileSystem) (world : World) (text : String)
    (mode : OpenMode) : Except Error Nat × FileSystem × World :=
  withFetched mount fs world text (openLocal mode)

/-- What is at a path. -/
def stat (mount : Option (Asset.Mount World)) (fs : FileSystem) (world : World) (text : String) :
    Except Error Stat × FileSystem × World :=
  withFetched mount fs world text statLocal

/-- The bytes of a file. -/
def readAll (mount : Option (Asset.Mount World)) (fs : FileSystem) (world : World) (text : String) :
    Except Error ByteArray × FileSystem × World :=
  withFetched mount fs world text readLocal

/-! ## Operations as data -/

/-- A request to the file system. -/
inductive Operation where
  | openPath (path : String) (mode : OpenMode)
  | close (descriptor : Nat)
  | read (descriptor length : Nat) (position : Option Nat)
  | write (descriptor : Nat) (data : ByteArray) (position : Option Nat)
  | statDescriptor (descriptor : Nat)
  | truncateDescriptor (descriptor length : Nat)
  | stat (path : String)
  | truncate (path : String) (length : Nat)
  | makeDir (path : String) (recursive : Bool)
  | removeDir (path : String)
  | unlink (path : String)
  | rename (source target : String)
  | setTimes (path : String) (accessed modified : Time)
  | readDir (path : String)
  | readAll (path : String)
  | writeFile (path : String) (data : ByteArray)
  | contains (path : String)
  | cwd
  | resolve (path : String)
  | chdir (path : String)
  | takeStdout
  | takeStderr
  | clearOutput

/-- The answer to a request that was granted. -/
inductive Reply where
  | done
  | number (n : Nat)
  | bytes (data : ByteArray)
  | chunk (data : ByteArray)
  | stat (stat : Stat)
  | names (names : List String)
  | truth (value : Bool)
  | path (path : Path)

/-- Grant a request that either changes the file system or leaves it as it is. -/
def settle (fs : FileSystem) (world : World) (result : Except Error FileSystem) :
    Except Error Reply × FileSystem × World :=
  match result with
  | .ok fs => (.ok .done, fs, world)
  | .error e => (.error e, fs, world)

/-- Grant a request that may leave a changed file system also when it fails. -/
def finish (world : World) (outcome : Except Error Unit × FileSystem) :
    Except Error Reply × FileSystem × World :=
  (outcome.1.map fun _ => .done, outcome.2, world)

/-- Answer a request that changes nothing. -/
def report (fs : FileSystem) (world : World) (result : Except Error Reply) :
    Except Error Reply × FileSystem × World :=
  (result, fs, world)

/-- Carry out one request. -/
def perform (mount : Option (Asset.Mount World)) (fs : FileSystem) (world : World) :
    Operation → Except Error Reply × FileSystem × World
  | .openPath path mode =>
    let (result, fs, world) := fs.openPath mount world path mode
    (result.map .number, fs, world)
  | .close descriptor => settle fs world (fs.close descriptor)
  | .read descriptor length position =>
    let (result, fs) := fs.read descriptor length position
    (result.map .chunk, fs, world)
  | .write descriptor data position =>
    match fs.write descriptor data position with
    | .ok (n, fs) => (.ok (.number n), fs, world)
    | .error e => (.error e, fs, world)
  | .statDescriptor descriptor => report fs world ((fs.statDescriptor descriptor).map .stat)
  | .truncateDescriptor descriptor length =>
    settle fs world (fs.truncateDescriptor descriptor length)
  | .stat path =>
    let (result, fs, world) := fs.stat mount world path
    (result.map .stat, fs, world)
  | .truncate path length => settle fs world (fs.truncate path length)
  | .makeDir path recursive => finish world (fs.makeDir path recursive)
  | .removeDir path => settle fs world (fs.removeDir path)
  | .unlink path => settle fs world (fs.unlink path)
  | .rename source target => finish world (fs.rename source target)
  | .setTimes path accessed modified => settle fs world (fs.setTimes path accessed modified)
  | .readDir path => report fs world ((fs.readDir path).map .names)
  | .readAll path =>
    let (result, fs, world) := fs.readAll mount world path
    (result.map .bytes, fs, world)
  | .writeFile path data => finish world (fs.writeFile path data)
  | .contains path => report fs world (.ok (.truth (fs.contains path)))
  | .cwd => report fs world (.ok (.path fs.cwd))
  | .resolve path => report fs world ((fs.resolve path).map .path)
  | .chdir path => settle fs world (fs.chdir path)
  | .takeStdout => let (data, fs) := fs.takeStdout; (.ok (.bytes data), fs, world)
  | .takeStderr => let (data, fs) := fs.takeStderr; (.ok (.bytes data), fs, world)
  | .clearOutput => (.ok .done, fs.clearOutput, world)

/-- Carry out requests one after the other, each on what the one before left. -/
def performAll (mount : Option (Asset.Mount World)) (fs : FileSystem) (world : World) :
    List Operation → List (Except Error Reply) × FileSystem × World
  | [] => ([], fs, world)
  | operation :: rest =>
    let (reply, fs, world) := perform mount fs world operation
    let (replies, fs, world) := performAll mount fs world rest
    (reply :: replies, fs, world)

/-- What is at a path and below it, at most `depth` levels deep, each directory before what is in it.
    -/
def walk (fs : FileSystem) : Nat → Path → List (Path × Node)
  | 0, _ => []
  | depth + 1, p =>
    match fs.find? p with
    | none => []
    | some node => (p, node) :: node.names.flatMap fun name =>
        match p.join name with
        | .ok child => fs.walk depth child
        | .error _ => []

/-- Every node in listing order, and the file system after the files of at most `limit` bytes among
    them have been read. There are no more levels than nodes. -/
def survey (fs : FileSystem) (limit : Nat) : List (Path × Node) × FileSystem :=
  let nodes := fs.walk fs.nodes.length .root
  (nodes, nodes.foldl (fun fs (p, node) =>
    match node with
    | .file data times =>
      if data.size ≤ limit then fs.setFile p data { times with accessed := fs.clock } else fs
    | .dir .. => fs) fs)

end Workbench.FileSystem
