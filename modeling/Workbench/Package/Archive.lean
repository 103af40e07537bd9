import Workbench.Manifest.File
import Workbench.Package.WorkDir
import Workbench.Part

set_option autoImplicit false

/-! # Archiving packages

Packages are built one after the other, and every archive that a build leaves is copied into a flat
store and bound in the manifest, once. A package that is archived already, or that was tried before,
is skipped. A package that cannot be built is reported and the others go on; a store or manifest
that cannot be written ends the run. -/

namespace Workbench.Package

open Host (Disk Location Job)

variable {World : Type}

/-- What is to be built: the standard library, or a package. -/
inductive Target where
  | standard
  | package (name : String)
  deriving DecidableEq, Repr, Inhabited

/-- What archiving works with. -/
structure Archivist (World : Type) where
  builder : Builder World
  disk : Part World Disk
  storeDir : String
  manifestPath : String
  /-- What stands before an import path in the place where its archive is served. -/
  urlPrefix : String

/-- What is known across runs: the packages that were tried, and those that are archived. -/
structure Progress where
  tried : List String
  archived : List String
  deriving DecidableEq, Repr, Inhabited

/-- What a run has come to. -/
structure Report where
  built : List String
  skipped : List String
  /-- The packages that could not be built, with what was printed. -/
  failed : List (String × String)
  /-- The bindings appended to the manifest. -/
  records : List PackageRecord
  deriving DecidableEq, Repr, Inhabited

/-- Whether every package was built. -/
def Report.isSuccess (r : Report) : Bool := r.failed.isEmpty

/-- A run under way. -/
structure Draft (World : Type) where
  world : World
  progress : Progress
  report : Report

/-- A step of a run, which may end the run. -/
abbrev Step (World : Type) (α : Type) := ExceptT Host.Error (StateM (Draft World)) α

namespace Archivist

/-- The prefix under which a store is served unless another is set: its name. -/
def defaultPrefix (storeDir : String) : String :=
  "/" ++ ((Location.ofText storeDir).fileName?.getD "prebuilt")

/-- A prefix written with one slash before it and none after it. -/
def normalPrefix (text : String) : String :=
  "/" ++ String.ofList (Text.dropEndWhile (· == '/') (text.toList.dropWhile (· == '/')))

/-- The place where the archive of an import path is served. -/
def storedPath (a : Archivist World) (importPath : String) : String :=
  a.urlPrefix ++ "/" ++ importPath ++ ".a"

/-- The file that holds the archive of an import path. -/
def storeFile (a : Archivist World) (importPath : String) : String :=
  Location.join a.storeDir (importPath ++ ".a")

/-- Whether a package of the standard library is built for its own sake. The others are archived
    where a package depends on them. -/
def isRoot (importPath : String) : Bool :=
  let begins (start : String) := start.toList.isPrefixOf importPath.toList
  !(begins "cmd/" || begins "vendor/" ||
    (Text.splitOn '/' importPath.toList).contains "internal".toList)

/-! ## Steps -/

/-- Do something in the world. -/
def inWorld {α : Type} (act : World → α × World) : Step World α := do
  let d ← get
  let (result, world) := act d.world
  set { d with world := world }
  return result

/-- Do a job on the disk; its failure ends the run. -/
def onDisk {α : Type} (a : Archivist World) (job : Job α) : Step World α := do
  match ← inWorld (a.disk.run job.run) with
  | .ok answer => return answer
  | .error e => throw e

/-- Change the report. -/
def note (change : Report → Report) : Step World Unit :=
  modify fun d => { d with report := change d.report }

/-- Report a package that could not be built. -/
def fail (package output : String) : Step World Unit :=
  note fun r => { r with failed := r.failed ++ [(package, output)] }

/-- Copy an archive into the store and bind it in the manifest, unless that was done. -/
def archiveOne (a : Archivist World) (w : WorkDir) (importPath archive : String) :
    Step World Unit := do
  if (← get).progress.archived.contains importPath then return
  let file := a.storeFile importPath
  a.onDisk (Job.makeParents file)
  a.onDisk <| tryCatch (Job.copy archive file) fun e =>
    throw (.custom e.kind ("failed to copy " ++ archive ++ " -> " ++ file ++ ": " ++ e.message))
  let record : PackageRecord := ⟨importPath, a.storedPath importPath, w.depsOf importPath⟩
  a.onDisk (Manifest.append a.manifestPath record)
  modify fun d => { d with
    progress := { d.progress with archived := d.progress.archived ++ [importPath] }
    report := { d.report with records := d.report.records ++ [record] } }

/-- Archive everything in a work directory. -/
def archiveAll (a : Archivist World) (work package : String) : Step World Unit := do
  let w ← a.onDisk (Job.ask (WorkDir.scan · work package))
  for (importPath, archive) in w.archives do
    a.archiveOne w importPath archive

/-- Remove a work directory, as far as that is possible. -/
def discard (a : Archivist World) (work : String) : Step World Unit :=
  a.onDisk (Job.attempt (Job.removeTree work))

/-- Do a step, and then remove a work directory, whether the step ended the run or not. -/
def discarding (a : Archivist World) (work : String) (step : Step World Unit) :
    Step World Unit := do
  tryCatch step fun e => do
    a.discard work
    throw e
  a.discard work

/-- Build a package and archive what the build leaves. -/
def buildPackage (a : Archivist World) (package : String) : Step World Unit := do
  match ← inWorld (a.builder.build · package) with
  | .error e => fail package ("go build " ++ package ++ " failed: " ++ e.message)
  | .ok printout =>
    match printout.success, printout.workDir? with
    | false, work =>
      if let some work := work then a.discard work
      fail package printout.combined
    | true, none =>
      fail package ("build did not report a work directory\n" ++ printout.combined)
    | true, some work =>
      a.discarding work (a.archiveAll work package)
      note fun r => { r with built := r.built ++ [package] }

/-- Build a package, unless that was tried or it is archived. -/
def process (a : Archivist World) (package : String) : Step World Unit := do
  let known := (← get).progress
  if known.tried.contains package || known.archived.contains package then
    note fun r => { r with skipped := r.skipped ++ [package] }
  else
    modify fun d =>
      { d with progress := { d.progress with tried := d.progress.tried ++ [package] } }
    a.buildPackage package

/-- Fetch a package unless it is there. What was printed if that fails. -/
def ensureAvailable (a : Archivist World) (package : String) : Step World (Option String) := do
  match ← inWorld (a.builder.isAvailable · package) with
  | .ok true => return none
  | .error e => return some ("go list " ++ package ++ " failed: " ++ e.message)
  | .ok false =>
    match ← inWorld (a.builder.fetch · package) with
    | .ok printout => return if printout.success then none else some printout.combined
    | .error e => return some ("go get " ++ package ++ " failed: " ++ e.message)

/-- Do what a target asks for. -/
def serve (a : Archivist World) : Target → Step World Unit
  | .standard => do
    match ← inWorld a.builder.listStandard with
    | .error e => throw e
    | .ok packages =>
      for package in packages.filter isRoot do
        a.process package
  | .package name => do
    match ← a.ensureAvailable name with
    | some output => fail name output
    | none => a.process name

/-- All steps of a run. -/
def steps (a : Archivist World) (targets : List Target) : Step World Unit := do
  a.onDisk (Job.makeDirs a.storeDir)
  for target in targets do
    a.serve target

/-- Run through the targets. -/
def run (a : Archivist World) (targets : List Target) (progress : Progress) (world : World) :
    Except Host.Error Report × Progress × World :=
  let (result, d) := (a.steps targets).run ⟨world, progress, ⟨[], [], [], []⟩⟩
  (result.map fun () => d.report, d.progress, d.world)

end Archivist

end Workbench.Package
