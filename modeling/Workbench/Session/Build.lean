import Workbench.Config
import Workbench.Session.Guard

set_option autoImplicit false

/-! # Running a session

A session writes the source into the work directory and lets the tools loose on it, one after the
other: the formatter, and for a run the compiler and the linker, whose module is then executed in a
frame. A tool fails its stage by an exit status other than zero or by anything but blanks on its
standard error. The session has a number of milliseconds to wait in; when a tool or a frame would
wait for longer, the session is left where it stands, and whoever runs it decides what that means.

The steps of a session share a draft: the file system and the world, the gate, the text gathered so
far and the patience left. A step ends with a value or is interrupted, and the draft survives both.
-/

namespace Workbench.Session

variable {World : Type}

/-- What a session works with. -/
structure Workshop (World : Type) where
  config : Config
  mount : Option (Asset.Mount World)
  toolchain : Toolchain World
  frames : FrameHost World

/-- One run of a tool: what it was given, how it ended, and what it left. -/
structure ToolCall where
  tool : Tool
  args : List String
  before : FileSystem
  run : Toolchain.Run
  after : FileSystem

/-- One request for a frame: the module it was to run, and what came of it. -/
structure FrameCall where
  module : ByteArray
  result : Except Frame.Error Frame.Signals

/-- What a session has made so far. -/
structure Draft (World : Type) where
  fs : FileSystem
  world : World
  gate : Gate
  source : String
  stdout : String
  stderr : String
  /-- The milliseconds that the session may still wait. -/
  patience : Nat
  /-- The runs of tools so far, in order. -/
  calls : List ToolCall
  /-- The requests for frames so far, in order. -/
  frames : List FrameCall

/-- Why a session does not go on. -/
inductive Interruption where
  /-- Something other than the source is at fault. -/
  | error (cause : Error)
  /-- The session would have to wait for longer than it may. -/
  | waiting
  deriving DecidableEq, Repr, Inhabited

/-- A step of a session. -/
abbrev Step (World : Type) (α : Type) := ExceptT Interruption (StateM (Draft World)) α

/-! ## Single steps -/

/-- Stop the session for a cause. -/
def abort {α : Type} (cause : Error) : Step World α := throw (.error cause)

/-- Report an event. -/
def emit (event : Event) : Step World Unit :=
  modify fun d => { d with gate := d.gate.emit event }

/-- Move to a state. -/
def moveTo (state : State) : Step World Unit :=
  modify fun d => { d with gate := d.gate.transition state }

/-- Change the file system by an operation that may be refused. -/
def change (act : FileSystem → Except FileSystem.Error Unit × FileSystem) : Step World Unit := do
  let d ← get
  let (result, fs) := act d.fs
  set { d with fs := fs }
  match result with
  | .ok () => return
  | .error e => abort (.fileSystem e)

/-- Read a file, which is fetched if it is an asset. A refusal is handed on as a value. -/
def readFile (w : Workshop World) (path : String) :
    Step World (Except FileSystem.Error ByteArray) := do
  let d ← get
  let (result, fs, world) := d.fs.readAll w.mount d.world path
  set { d with fs := fs, world := world }
  return result

/-- Remove what an earlier session built, so that a tool which does nothing cannot pass it off as
    its own. -/
def removeStale (path : String) : Step World Unit :=
  change fun fs =>
    match fs.unlink path with
    | .ok fs => (.ok (), fs)
    | .error (.notFound _) => (.ok (), fs)
    | .error e => (.error e, fs)

/-- Make the work directory ready. -/
def resetWorkspace (c : Config) : Step World Unit := do
  modify fun d => { d with fs := d.fs.clearOutput }
  change fun fs => fs.makeDir c.workDir true
  removeStale c.mainArchivePath
  removeStale c.modulePath

/-! ## Running a tool -/

/-- Run a tool to its end and return its exit status. -/
def runTool (w : Workshop World) (tool : Tool) (args : List String) : Step World Int := do
  let d ← get
  let (run, fs, world) := w.toolchain.run w.mount tool args d.patience d.fs d.world
  let call : ToolCall := ⟨tool, args, d.fs, run, fs⟩
  set { d with fs := fs, world := world, calls := d.calls ++ [call] }
  match run with
  | .exited status left =>
    modify fun d => { d with patience := left }
    return status
  | .failed cause => abort (.toolchain cause)
  | .running => throw .waiting

/-- Gather what a tool has written to the standard streams. -/
def gatherOutput (tool : Tool) : Step World String := do
  let d ← get
  let (out, fs) := d.fs.takeStdout
  let (err, fs) := fs.takeStderr
  let stdout := Text.ofUtf8Lossy out
  let stderr := Text.ofUtf8Lossy err
  set { d with fs := fs, stdout := d.stdout ++ stdout, stderr := d.stderr ++ stderr }
  if !(stdout.isEmpty && stderr.isEmpty) then emit (.output tool stdout stderr)
  return stderr

/-- What a tool's standard error and exit status say about its stage. The message keeps everything;
    the diagnostics are those about the source file. -/
def verdict (sourcePath : String) (tool : Tool) (stderr : String) (status : Int) :
    Option Failure :=
  let quiet := (Text.trim stderr.toList).isEmpty
  if quiet && isSuccess status then none
  else some {
    stage := tool
    message := if quiet then tool.name ++ " exited with status " ++ toString status else stderr
    diagnostics := (Diagnostic.parse stderr).filter (·.refersTo sourcePath) }

/-- Report the diagnostics of a failure, if there are any. -/
def reportFailure (tool : Tool) : Option Failure → Step World Unit
  | none => return
  | some f => if f.diagnostics.isEmpty then return else emit (.diagnostics tool f.diagnostics)

/-- Run a tool and judge it: nothing, or the failure of its stage. -/
def invoke (w : Workshop World) (tool : Tool) (args : List String) :
    Step World (Option Failure) := do
  modify fun d => { d with fs := d.fs.clearOutput }
  let status ← runTool w tool args
  let stderr ← gatherOutput tool
  let failure := verdict w.config.sourcePath tool stderr status
  reportFailure tool failure
  return failure

/-! ## The stages -/

/-- The failure of a stage whose tool left nothing at a path. -/
def missingOutput (tool : Tool) (path : String) : Failure :=
  ⟨tool, tool.name ++ " produced no output at " ++ path, []⟩

/-- Format the source and take over the result. -/
def formatStage (w : Workshop World) : Step World (Option Failure) := do
  moveTo .formatting
  let path := w.config.sourcePath
  let source := (← get).source
  change fun fs => fs.writeFile path source.toUTF8
  if let some f ← invoke w .format ["-w", path] then return some f
  match ← readFile w path with
  | .error e => abort (.fileSystem e)
  | .ok bytes =>
    match Text.ofUtf8? bytes with
    | none => return some ⟨.format, "formatter produced invalid UTF-8", []⟩
    | some text =>
      modify fun d => { d with source := text }
      emit (.formatted text)
      return none

/-- The arguments of the compiler. -/
def compileArgs (c : Config) : List String :=
  ["-o", c.mainArchivePath, "-p", "main", "-complete", "-pack", "-importcfg", c.compileConfigPath,
    c.sourcePath]

/-- The arguments of the linker. -/
def linkArgs (c : Config) : List String :=
  ["-o", c.modulePath, "-importcfg", c.linkConfigPath, c.mainArchivePath]

/-- Compile the source. -/
def compileStage (w : Workshop World) (imports : List String) (m : Manifest) :
    Step World (Option Failure) := do
  moveTo .compiling
  let config := ImportConfig.compile imports m
  change fun fs => fs.writeFile w.config.compileConfigPath config.toText.toUTF8
  if let some f ← invoke w .compile (compileArgs w.config) then return some f
  let archive := w.config.mainArchivePath
  if (← get).fs.contains archive then return none
  return some (missingOutput .compile archive)

/-- Link the archive, and read the module. -/
def linkStage (w : Workshop World) (imports : List String) (m : Manifest) :
    Step World (Except Failure ByteArray) := do
  moveTo .linking
  let config := ImportConfig.link imports m w.config.mainArchivePath w.config.linkScope
  change fun fs => fs.writeFile w.config.linkConfigPath config.toText.toUTF8
  if let some f ← invoke w .link (linkArgs w.config) then return .error f
  let path := w.config.modulePath
  match ← readFile w path with
  | .ok bytes => return if bytes.isEmpty then .error (missingOutput .link path) else .ok bytes
  | .error (.notFound _) => return .error (missingOutput .link path)
  | .error e => abort (.fileSystem e)

/-- Wait for both reports of a frame. -/
def awaitFrame (signals : Frame.Signals) : Step World Unit := do
  let d ← get
  match signals.settled? with
  | none => throw .waiting
  | some after =>
    if after > 0 && after ≥ d.patience then throw .waiting
    set { d with patience := d.patience - after }
    match signals.outcome with
    | .ok () => return
    | .error e => abort (.frame e)

/-- Execute the module in a frame. -/
def frameStage (w : Workshop World) (module : ByteArray) : Step World Unit := do
  let d ← get
  let (result, world) := w.frames.create module Frame.bootstrap d.world
  let frame : FrameCall := ⟨module, result⟩
  set { d with world := world, frames := d.frames ++ [frame] }
  match result with
  | .error e => abort (.frame e)
  | .ok signals =>
    emit (.frameCreated module.size)
    awaitFrame signals

/-- All stages of a session. Unless it is a run with a manifest it ends with formatting. -/
def stages (w : Workshop World) (kind : Kind) (manifest : Option Manifest) :
    Step World Outcome := do
  resetWorkspace w.config
  if let some f ← formatStage w then return .failed f
  match manifest.filter fun _ => kind = .run with
  | none => return .formatted
  | some m =>
    let imports := Source.imports (← get).source
    if let some f ← compileStage w imports m then return .failed f
    match ← linkStage w imports m with
    | .error f => return .failed f
    | .ok module =>
      frameStage w module
      return .ready module

/-! ## The session as a whole -/

/-- The draft of a session that begins. -/
def Draft.start (kind : Kind) (source : String) (patience : Nat) (fs : FileSystem) (world : World) :
    Draft World :=
  ⟨fs, world, .start kind, source, "", "", patience, [], []⟩

/-- Settle a session that has come to an end by itself. -/
def conclude (kind : Kind) (d : Draft World) (outcome : Outcome) :
    Except Error Session × Draft World :=
  (.ok ⟨kind, d.source, d.stdout, d.stderr, outcome⟩,
   { d with gate := (d.gate.settle outcome.state none).2 })

/-- Settle a session that was stopped for a cause. -/
def concludeError (d : Draft World) (cause : Error) : Except Error Session × Draft World :=
  (.error cause,
   { d with gate := (d.gate.settle .failed (some (.environmentError cause.message))).2 })

/-- Settle a session whose time is used up. What a tool has left in the output buffers is dropped.
    -/
def concludeTimeout (kind : Kind) (seconds : Nat) (d : Draft World) :
    Except Error Session × Draft World :=
  (.ok ⟨kind, d.source, d.stdout, d.stderr, .timedOut⟩,
   { d with
      fs := d.fs.clearOutput
      gate := (d.gate.settle .timedOut (some (.timedOut seconds))).2 })

/-- Hold a session until it ends or its time is used up. Its deadline is one that the clock can
    show. -/
def conduct (w : Workshop World) (kind : Kind) (manifest : Option Manifest) (source : String)
    (fs : FileSystem) (world : World) : Except Error Session × Draft World :=
  let seconds := w.config.timeoutSeconds
  match (stages w kind manifest).run (Draft.start kind source (1000 * seconds) fs world) with
  | (.ok outcome, d) => conclude kind d outcome
  | (.error (.error cause), d) => concludeError d cause
  | (.error .waiting, d) => concludeTimeout kind seconds d

/-- The seconds that the clock can count up to. -/
def clockRange : Nat := Nat.pow 2 63

/-- When a session that begins at a reading of the clock, in seconds, is to end; nothing if the clock
    will never show it. -/
def deadline? (c : Config) (started : Nat) : Option Nat :=
  let deadline := started + c.timeoutSeconds
  if deadline < clockRange then some deadline else none

/-- Call for a session at a reading of the clock. The deadline is reckoned first of all; without one
    the call is broken off, and nothing was reported or changed. -/
def call (w : Workshop World) (kind : Kind) (manifest : Option Manifest) (source : String)
    (started : Nat) (fs : FileSystem) (world : World) :
    Option (Except Error Session × Draft World) :=
  (deadline? w.config started).map fun _ => conduct w kind manifest source fs world

/-- The kind of a session with or without a manifest. -/
def kindOf (manifest : Option Manifest) : Kind := if manifest.isSome then .run else .format

/-- Run a source with a manifest, or format it. -/
def perform (w : Workshop World) (manifest : Option Manifest) (source : String) (fs : FileSystem)
    (world : World) : Except Error Session × Draft World :=
  conduct w (kindOf manifest) manifest source fs world

/-! ## Sessions that are left -/

/-- A session that is left where it waits for a tool or a frame, after it has waited for some
    milliseconds altogether: nothing if it has ended by then, and otherwise what it has made. -/
def untilWaiting (w : Workshop World) (spent : Nat) (manifest : Option Manifest) (source : String)
    (fs : FileSystem) (world : World) : Option (Draft World) :=
  let kind := kindOf manifest
  let patience := min spent (1000 * w.config.timeoutSeconds)
  match (stages w kind manifest).run (Draft.start kind source patience fs world) with
  | (.error .waiting, d) => some d
  | _ => none

/-- A workshop where a session is left at one of its own fetches. Such a fetch fails, which stops the
    session then and there, and the world notes it. The tools fetch as ever. -/
def Workshop.leaving (w : Workshop World) (leave : World → String → Option World) :
    Workshop (World × Bool) where
  config := w.config
  mount := w.mount.map fun m => {
    roots := m.roots
    fetch := fun world key =>
      match leave world.1 key with
      | some left => (.error (.network key "left"), left, true)
      | none =>
        let (result, after) := m.fetch world.1 key
        (result, after, world.2) }
  toolchain := {
    run := fun _ tool args patience fs world =>
      let (run, fs, after) := w.toolchain.run w.mount tool args patience fs world.1
      (run, fs, after, world.2) }
  frames := {
    create := fun module loader world =>
      let (result, after) := w.frames.create module loader world.1
      (result, after, world.2) }

/-- A session that is left at one of its own fetches: nothing if it comes to none, and otherwise what
    it has made by then. -/
def untilReading (w : Workshop World) (leave : World → String → Option World) (kind : Kind)
    (manifest : Option Manifest) (source : String) (fs : FileSystem) (world : World) :
    Option (Draft World) :=
  let start := Draft.start kind source (1000 * w.config.timeoutSeconds) fs (world, false)
  let d := ((stages (w.leaving leave) kind manifest).run start).2
  if d.world.2 then some { d with world := d.world.1 } else none

/-- Hold a session whose time is used up at one of its own fetches: nothing if it comes to none. -/
def conductLate (w : Workshop World) (leave : World → String → Option World) (kind : Kind)
    (manifest : Option Manifest) (source : String) (fs : FileSystem) (world : World) :
    Option (Except Error Session × Draft World) :=
  (untilReading w leave kind manifest source fs world).map
    (concludeTimeout kind w.config.timeoutSeconds)

end Workbench.Session
