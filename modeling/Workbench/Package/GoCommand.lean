import Workbench.Host.Program
import Workbench.Package.Builder
import Workbench.Part
import Workbench.Text.Duration
import Workbench.Text.Utf8

set_option autoImplicit false

/-! # Building packages with the go command

The builder whose requests are runs of the `go` command, for the web as its target. A run that takes
longer than it may is stopped and counts as refused. -/

namespace Workbench.Package

open Host (Disk)

/-- The `go` command as it is to be run. -/
structure GoCommand where
  launcher : Host.Launcher
  program : String
  /-- The directory to run in, if not the working directory. -/
  directory : Option String
  /-- The milliseconds that a run may take. -/
  limit : Nat

namespace GoCommand

/-- The variables that tell the command its target. -/
def target : List (String × String) := [("GOOS", "js"), ("GOARCH", "wasm")]

/-- The milliseconds that a run may take unless another limit is set. -/
def defaultLimit : Nat := 600000

/-- The file to which a program is built that nobody needs. -/
def nowhere : String := "/dev/null"

/-- Run the command. -/
def run (g : GoCommand) (args : List String) (d : Disk) : Except Host.Error Printout × Disk :=
  match g.launcher.launch ⟨g.program, args, g.directory, target, g.limit⟩ d with
  | (.error e, d) =>
    (.error (.custom e.kind ("failed to spawn " ++ g.program ++ ": " ++ e.message)), d)
  | (.ok .running, d) =>
    (.error (.custom .timedOut ("go " ++ " ".intercalate args ++ " timed out after " ++
      Text.durationText g.limit)), d)
  | (.ok (.finished f), d) =>
    (.ok ⟨f.ending = .exited 0, Text.ofUtf8Lossy f.stdout, Text.ofUtf8Lossy f.stderr⟩, d)

/-- The packages that a list in lines names. -/
def listed (p : Printout) : List String :=
  (((Text.linesOf p.stdout).map Text.trim).filter (!·.isEmpty)).map String.ofList

/-- The packages of the standard library. -/
def listStandard (g : GoCommand) (d : Disk) : Except Host.Error (List String) × Disk :=
  match g.run ["list", "std"] d with
  | (.error e, d) => (.error e, d)
  | (.ok p, d) =>
    if p.success then (.ok (listed p), d)
    else (.error (.custom .other ("go list std failed: " ++ p.stderr)), d)

/-- Whether a package is there. -/
def isAvailable (g : GoCommand) (package : String) (d : Disk) : Except Host.Error Bool × Disk :=
  let (result, d) := g.run ["list", package] d
  (result.map (·.success), d)

/-- The arguments that build a package with everything it depends on, and keep the work directory.
    -/
def buildArgs (package : String) : List String := ["build", "-a", "-work", "-o", nowhere, package]

/-- The builder that runs the command on the disk of a world. -/
def builder {World : Type} (disk : Part World Disk) (g : GoCommand) : Builder World where
  listStandard := disk.run g.listStandard
  isAvailable := fun w package => disk.run (g.isAvailable package) w
  fetch := fun w package => disk.run (g.run ["get", package]) w
  build := fun w package => disk.run (g.run (buildArgs package)) w

end GoCommand

end Workbench.Package
