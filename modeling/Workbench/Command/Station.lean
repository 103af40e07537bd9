import Workbench.Asset.Folder
import Workbench.Asset.Site
import Workbench.Bench
import Workbench.Command.Settings
import Workbench.Command.Terminal
import Workbench.Session.FramePage
import Workbench.Session.HostToolchain

set_option autoImplicit false

/-! # A bench on the host

How a bench is equipped from the settings of the command line: the assets come from a directory or a
site and are kept in a directory or in memory, the tools are those of the host, and frames are
written as pages. -/

namespace Workbench.Command

open Host (Disk Job Location)

/-- What a command finds around it. -/
structure Surroundings where
  launcher : Host.Launcher
  /-- How a URL is downloaded: its bytes, or nothing if there is none, or the reason of a failure.
      -/
  download : Url → Except String (Option ByteArray)
  /-- The present time, in seconds since the epoch; the clock of the sessions shows it too. -/
  time : Nat
  /-- The path of a directory that may be made for the scratch files of a session. -/
  scratchRoot : String

/-! ## Actions -/

/-- What a command changes. -/
structure Scene where
  disk : Disk
  terminal : Terminal

/-- Why a command stops before its end. -/
inductive Stop where
  /-- Something has failed. -/
  | failed (cause : Host.Error)
  /-- The program breaks down, with some last words. -/
  | broken (words : String)
  deriving DecidableEq, Repr, Inhabited

/-- Something that a command does. What was done before it stops stays done. -/
abbrev Act (α : Type) := ExceptT Stop (StateM Scene) α

/-- Stop for a failure. -/
def fail {α : Type} (cause : Host.Error) : Act α := throw (.failed cause)

/-- Go on with a value, unless there is none because of a failure. -/
def expect {α : Type} : Except Host.Error α → Act α
  | .ok value => return value
  | .error cause => fail cause

/-- Do a job on the disk. -/
def onDisk {α : Type} (job : Job α) : Act α := do
  let s ← get
  let (result, disk) := job.run s.disk
  set { s with disk := disk }
  expect result

/-- Write to the terminal. -/
def write (change : Terminal → Terminal) : Act Unit :=
  modify fun s => { s with terminal := change s.terminal }

/-! ## Equipment -/

/-- The world of a bench on the host: the disk, the assets that are kept in memory, and whether kept
    assets may be served. -/
structure Station where
  disk : Disk
  memory : Asset.Memory
  isReconciled : Bool

/-- The disk of a station. -/
def Station.diskPart : Part Station Disk := ⟨Station.disk, fun w d => { w with disk := d }⟩

/-- Where the assets come from. -/
def source (around : Surroundings) (s : Settings) :
    Act (Disk → String → Except Asset.Error ByteArray × Disk) := do
  if s.isRemote then
    match Url.parse s.assetRoot with
    | .ok base => return fun d key => (Asset.Site.fetch around.download base key, d)
    | .error e => fail (.custom .invalidInput ("invalid asset_root: " ++ e.message))
  else return Asset.Folder.source s.assetRoot

/-- The assets, kept in a directory if one is set and otherwise in memory. -/
def depot (around : Surroundings) (s : Settings) : Act (Depot Station) := do
  match s.cacheDir with
  | some dir =>
    onDisk (Asset.Folder.prepare dir)
    let origin ← source around s
    return (Depot.ofCache (Asset.Folder.store dir around.time) origin).within
      (fun w => ⟨w.isReconciled, w.disk, w.disk⟩)
      (fun w c => { w with isReconciled := c.isReconciled, disk := c.store })
  | none =>
    let origin ← source around s
    return (Depot.ofCache Asset.Memory.store origin).within
      (fun w => ⟨w.isReconciled, w.memory, w.disk⟩)
      (fun w c => { w with isReconciled := c.isReconciled, memory := c.store })

/-- Where the runtime support script is found below the root of an installation; newer ones have it
    in the first place. -/
def supportPlaces : List String := ["lib/wasm/wasm_exec.js", "misc/wasm/wasm_exec.js"]

/-- The runtime support script, found by asking the `go` command for its root. -/
def findSupport (around : Surroundings) (s : Settings) : Act (Option String) := do
  let scene ← get
  let (launched, disk) := around.launcher.launch
    ⟨s.goBinary, ["env", "GOROOT"], none, [], Host.Launch.unlimited⟩ scene.disk
  set { scene with disk := disk }
  match launched with
  | .ok (.finished f) =>
    let root := String.ofList (Text.trim (Text.ofUtf8Lossy f.stdout).toList)
    return if f.ending = .exited 0 then (supportPlaces.map (Location.join root)).find? disk.contains
      else none
  | _ => return none

/-- Equip a bench. -/
def equip (around : Surroundings) (s : Settings) : Act (Equipment Station) := do
  let support ← findSupport around s
  let assets ← depot around s
  onDisk (Job.change (·.makeDir around.scratchRoot))
  return {
    config := s.bench
    depot := assets
    toolchain := HostToolchain.toolchain
      ⟨around.launcher, s.goBinary, ⟨around.scratchRoot, Station.diskPart⟩⟩
    frames := Frame.pageHost Station.diskPart s.outDir support }

/-- Use a bench, and remove its scratch directory afterwards, however that ends. -/
def equipped (around : Surroundings) (s : Settings) (use : Equipment Station → Act Unit) :
    Act Unit := do
  let gear ← equip around s
  let cleanUp : Act Unit := onDisk (Job.attempt (Job.removeTree around.scratchRoot))
  tryCatch (use gear) fun stop => do
    cleanUp
    throw stop
  cleanUp

/-! ## Requests -/

/-- A bench on the disk as it is now. -/
def freshBench (around : Surroundings) : Act (Bench Station) := do
  return .new (.empty ⟨around.time, 0⟩) ⟨(← get).disk, [], false⟩

/-- The last words of a program for whose session the clock has no deadline. -/
def noDeadline : String := "overflow when adding duration to instant"

/-- Have a request served, and show what is reported on the way. -/
def request (around : Surroundings) (verbose : Bool) (gear : Equipment Station)
    (bench : Bench Station) (r : Request) : Act (Answer × Bench Station) := do
  match bench.serveAt gear around.time r with
  | none => throw (.broken noDeadline)
  | some (result, events, bench) =>
    modify fun s => ⟨bench.world.disk, events.foldl (Terminal.display verbose) s.terminal⟩
    match result with
    | .ok answer => return (answer, bench)
    | .error e => fail (.custom .other e.message)

/-- The failure that the outcome of a session is. -/
def judge : Session.Outcome → Act Unit
  | .formatted | .ready _ => return
  | .failed failure => fail (.custom .other (failure.stage.name ++ " failed"))
  | .timedOut => fail (.custom .timedOut "exceeded time limit")

/-- The session that an answer is. -/
def sessionOf : Answer → Act Session
  | .session session => return session
  | .manifest _ => fail (.custom .other "no session was held")

end Workbench.Command
