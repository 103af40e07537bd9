import Workbench.Host.Directory
import Workbench.Package.Builder
import Workbench.Source.ImportConfig

set_option autoImplicit false

/-! # The work directory of a build

A build leaves one directory for each package it compiled. The directory of the package that was
asked for has a fixed name; what the others hold is known from the configurations in them, which
bind paths of packages to archives. So a package is known by its archive, and depends on what the
configuration beside its archive imports. -/

namespace Workbench.Package

open Host (Disk Location)

/-- The name of the directory of the package that was asked for. -/
def rootAction : String := "b001"

/-- The name of the archive in every directory. -/
def archiveName : String := "_pkg_.a"

/-- What a work directory tells. -/
structure WorkDir where
  /-- The archives by import path, in the order in which they were met. -/
  archives : List (String × String)
  /-- The direct imports, by the path of the archive that has them. -/
  imports : List (String × List String)
  deriving DecidableEq, Repr, Inhabited

namespace WorkDir

/-- Note an archive, unless the import path is known. -/
def addArchive (archives : List (String × String)) (binding : String × String) :
    List (String × String) :=
  if (archives.lookup binding.1).isSome then archives else archives ++ [binding]

/-- The import configuration in a file, if the file is there. -/
def readConfig? (d : Disk) (path : String) : Except Host.Error (Option ImportConfig) :=
  match d.readText path with
  | .ok text => .ok (some (.parse text))
  | .error e => if e.kind = .notFound then .ok none else .error e

/-- Take in the configurations of one directory, the one for compiling and the one for linking. Only
    the first tells what the package imports. -/
def scanAction (d : Disk) (w : WorkDir) (action : String) : Except Host.Error WorkDir := do
  let w ← match ← readConfig? d (Location.join action "importcfg") with
    | none => pure w
    | some c =>
      let imports := (Location.join action archiveName, c.entries.map Prod.fst)
      pure ⟨c.entries.foldl addArchive w.archives, w.imports ++ [imports]⟩
  match ← readConfig? d (Location.join action "importcfg.link") with
  | none => return w
  | some c => return { w with archives := c.entries.foldl addArchive w.archives }

/-- Read a work directory in which a package was built; its directories are read in order of their
    names. -/
def scan (d : Disk) (work package : String) : Except Host.Error WorkDir := do
  let children ← d.list work
  let names := ((children.filter (·.2.isDir)).map Prod.fst).mergeSort (· ≤ ·)
  let root := Location.join (Location.join work rootAction) archiveName
  let isThere := (d.find root).toOption.any (·.2.isFile)
  (names.map (Location.join work)).foldlM (scanAction d)
    ⟨if isThere then [(package, root)] else [], []⟩

/-- The last import path whose archive is at a path, however the path is written. -/
def ownerOf? (w : WorkDir) (archive : String) : Option String :=
  (w.archives.reverse.find? fun (_, path) => Location.ofText path = Location.ofText archive).map
    Prod.fst

/-- Insert a text into a sorted list without repetitions. -/
def insertSorted (text : String) : List String → List String
  | [] => [text]
  | t :: rest =>
    if text = t then t :: rest
    else if text < t then text :: t :: rest
    else t :: insertSorted text rest

/-- The direct imports of a package, sorted. -/
def depsOf (w : WorkDir) (importPath : String) : List String :=
  let own := w.imports.filter fun (archive, _) => w.ownerOf? archive = some importPath
  match own.getLast? with
  | some (_, imports) => imports.foldl (fun sorted i => insertSorted i sorted) []
  | none => []

end WorkDir

end Workbench.Package
