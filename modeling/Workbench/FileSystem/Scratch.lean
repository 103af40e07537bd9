import Workbench.FileSystem.Operation
import Workbench.Host.Directory
import Workbench.Part

set_option autoImplicit false

/-! # Scratch directories on the host

A directory of the host in which files of the in-memory file system stand under their own paths, so
that a program of the host can see them. Files are copied out and back one by one; the in-memory
file system remains the one that counts. -/

namespace Workbench.FileSystem

variable {World : Type}

/-- A directory of the host that holds copies of files, in a world that holds the disk and what is
    behind the mount. -/
structure Scratch (World : Type) where
  root : String
  disk : Part World Host.Disk

namespace Scratch

/-- A step that copies between the file system and the disk. -/
abbrev Step (World : Type) (α : Type) := ExceptT Host.Error (StateM (FileSystem × World)) α

/-- The path at which a path stands in the directory. -/
def hostPath (s : Scratch World) (p : Path) : String :=
  if p.isRoot then s.root else Host.Location.join s.root ("/".intercalate p.parts)

/-- Read a path as seen from the working directory of the file system. -/
def locate (text : String) : Step World Path := do
  match (← get).1.resolve text with
  | .ok p => return p
  | .error e => throw e.toHost

/-- Do a job on the disk. -/
def onDisk {α : Type} (s : Scratch World) (job : Host.Job α) : Step World α := do
  let (fs, world) ← get
  let (result, world) := s.disk.run job.run world
  set (fs, world)
  match result with
  | .ok answer => return answer
  | .error e => throw e

/-- Copy a file out, fetching it if it is an asset, and say where it stands now. -/
def exportFile (s : Scratch World) (mount : Option (Asset.Mount World)) (text : String) :
    Step World String := do
  let p ← locate text
  let (fs, world) ← get
  let (result, fs, world) := fs.readAll mount world p.toString
  set (fs, world)
  match result with
  | .error e => throw e.toHost
  | .ok data =>
    let path := s.hostPath p
    s.onDisk (Host.Job.makeParents path)
    s.onDisk (Host.Job.write path data)
    return path

/-- Copy a file back. Nothing is done if there is none, and that is the answer. -/
def importFile (s : Scratch World) (text : String) : Step World Bool := do
  let p ← locate text
  let (fs, world) ← get
  match (s.disk.get world).read (s.hostPath p) with
  | .error e => if e.kind = .notFound then return false else throw e
  | .ok data =>
    let (result, fs) := fs.writeFile p.toString data
    set (fs, world)
    match result with
    | .ok () => return true
    | .error e => throw e.toHost

end Scratch

end Workbench.FileSystem
