import Workbench.FileSystem.Scratch
import Workbench.Host.Program
import Workbench.Package.GoCommand
import Workbench.Session.Tool
import Workbench.Source.ImportConfig

set_option autoImplicit false

/-! # The tools of the host

The toolchain that runs programs of the host. A program knows nothing of the in-memory file system,
so every file that an argument names is copied out to a scratch directory first, and what the
program has written is copied back afterwards: the file after `-o`, and for the formatter every file
it was given. An import configuration is copied with everything it names, and names the copies. What
the program prints speaks of the files under their own names, since the path of that directory is
taken out of it. -/

namespace Workbench

open Host (Disk Job Location)

variable {World : Type}

/-- The tools of the host and the scratch directory they work in. -/
structure HostToolchain (World : Type) where
  launcher : Host.Launcher
  /-- The path or the name of the `go` command. -/
  goBinary : String
  scratch : FileSystem.Scratch World

namespace HostToolchain

/-- A step on the way to the run of a tool. -/
abbrev Step (World : Type) (α : Type) := ExceptT Toolchain.Error (StateM (FileSystem × World)) α

/-- Do something in the scratch directory. -/
def withScratch {α : Type} (step : FileSystem.Scratch.Step World α) : Step World α :=
  ExceptT.adapt Toolchain.Error.host step

/-- Take the answer of the file system. -/
def answered {α : Type} : Except FileSystem.Error α → Step World α
  | .ok answer => return answer
  | .error e => throw (.fileSystem e)

/-! ## Arguments -/

/-- Copy out an import configuration with everything it names, and say where it stands now. -/
def exportConfig (t : HostToolchain World) (mount : Option (Asset.Mount World)) (text : String) :
    Step World String := do
  let (fs, world) ← get
  let (content, fs, world) := fs.readAll mount world text
  set (fs, world)
  let config := ImportConfig.parse (Text.ofUtf8Lossy (← answered content))
  let archives := (config.entries.map Prod.snd).eraseDups
  let copies ← archives.mapM fun archive => withScratch (t.scratch.exportFile mount archive)
  let copied := config.mapArchives fun archive =>
    ((archives.zip copies).lookup archive).getD archive
  let path := t.scratch.hostPath (← answered ((← get).1.resolve text))
  withScratch (t.scratch.onDisk (Job.makeParents path))
  withScratch (t.scratch.onDisk (Job.write path copied.toText.toUTF8))
  return path

/-- Make ready for a file to be written by a tool, and say where that will be. -/
def exportTarget (t : HostToolchain World) (text : String) : Step World String := do
  let path := t.scratch.hostPath (← answered ((← get).1.resolve text))
  withScratch (t.scratch.onDisk (Job.makeParents path))
  return path

/-- Copy out what the arguments name. The result is the arguments for the host, and the files that
    are to be copied back. -/
def prepare (t : HostToolchain World) (mount : Option (Asset.Mount World)) (tool : Tool) :
    List String → Step World (List String × List String)
  | [] => return ([], [])
  | "-importcfg" :: text :: rest => do
    let path ← t.exportConfig mount text
    let (args, outputs) ← prepare t mount tool rest
    return ("-importcfg" :: path :: args, outputs)
  | "-o" :: text :: rest => do
    let path ← t.exportTarget text
    let (args, outputs) ← prepare t mount tool rest
    return ("-o" :: path :: args, text :: outputs)
  | arg :: rest => do
    if arg.toList.head? = some '/' && (← get).1.contains arg then
      let path ← withScratch (t.scratch.exportFile mount arg)
      let (args, outputs) ← prepare t mount tool rest
      return (path :: args, if tool = .format then arg :: outputs else outputs)
    else
      let (args, outputs) ← prepare t mount tool rest
      return (arg :: args, outputs)

/-! ## Programs -/

/-- The formatter: the one beside the `go` command, or else the one among the programs of the host.
    -/
def formatter (t : HostToolchain World) (d : Disk) : String :=
  match Location.parentText? t.goBinary with
  | none | some "" => "gofmt"
  | some dir =>
    let beside := Location.join dir "gofmt"
    if d.contains beside then beside else "gofmt"

/-- The program of a tool, with the arguments that go before all others. -/
def program (t : HostToolchain World) (d : Disk) : Tool → String × List String
  | .format => (t.formatter d, [])
  | tool => (t.goBinary, ["tool", tool.name])

/-- Hand on what a program has written to one of its standard streams. -/
def handOn (t : HostToolchain World) (descriptor : Nat) (bytes : ByteArray) : Step World Unit := do
  let text := Text.removeAll t.scratch.root.toList (Text.ofUtf8Lossy bytes).toList
  if !text.isEmpty then
    let (fs, world) ← get
    let (_, fs) ← answered (fs.write descriptor (String.ofList text).toUTF8 none)
    set (fs, world)

/-- Run a tool. The result is its exit status, which is negative if it was killed, and the time
    left; there is none if the tool is still running when there is no time left. -/
def steps (t : HostToolchain World) (mount : Option (Asset.Mount World)) (tool : Tool)
    (args : List String) (patience : Nat) : Step World (Option (Int × Nat)) := do
  let (args, outputs) ← t.prepare mount tool args
  if patience = 0 then return none
  let (fs, world) ← get
  let (program, first) := t.program (t.scratch.disk.get world) tool
  let (launched, world) := t.scratch.disk.run
    (t.launcher.launch
      ⟨program, first ++ args, some t.scratch.root, Package.GoCommand.target, patience⟩) world
  set (fs, world)
  match launched with
  | .error e => throw (.unavailable tool e.message)
  | .ok .running => return none
  | .ok (.finished f) =>
    for path in outputs do
      let _ ← withScratch (t.scratch.importFile path)
    t.handOn 1 f.stdout
    t.handOn 2 f.stderr
    return some ((f.ending.status?.map Int.ofNat).getD (-1), patience - f.duration)

/-- The tools of the host as a toolchain. -/
def toolchain (t : HostToolchain World) : Toolchain World where
  run := fun mount tool args patience fs world =>
    let (result, fs, world) := (t.steps mount tool args patience).run (fs, world)
    match result with
    | .ok (some (status, left)) => (.exited status left, fs, world)
    | .ok none => (.running, fs, world)
    | .error e => (.failed e, fs, world)

end HostToolchain

end Workbench
