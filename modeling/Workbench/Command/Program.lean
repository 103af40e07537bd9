import Workbench.Command.Invocation
import Workbench.Command.Station
import Workbench.Host.ErrorDetail
import Workbench.Package.Archive

set_option autoImplicit false

/-! # The program of the command line

A command line is read, the settings are gathered, and one command is carried out. A command that
fails shows the error in detail and ends with status 1; one that breaks down ends with status 101.
-/

namespace Workbench.Command

open Host (Disk Job Location)

/-- The name of the program. -/
def programName : String := "wasmplay"

/-! ## Archiving -/

/-- The directory of the store: the one that was asked for, or else one below the directory that
    serves the assets. -/
def storeDir (s : Settings) (asked : Option String) : Except Host.Error String :=
  match asked with
  | some dir => .ok dir
  | none =>
    if s.isRemote then
      .error (.custom .invalidInput
        "asset_root is a URL; pass --store to choose a local store directory")
    else .ok (Location.join s.assetRoot "prebuilt")

/-- What there is to say of a run of archiving. -/
def showReport (manifest : String) (r : Package.Report) (t : Terminal) : Terminal :=
  let failures := r.failed.foldl (fun t (package, output) =>
    (t.remark ("failed: " ++ package)).complain (output ++ "\n")) t
  failures.print (toString r.built.length ++ " built, " ++
    toString r.skipped.length ++ " skipped, " ++ toString r.failed.length ++ " failed, " ++
    toString r.records.length ++ " archives added to " ++ manifest ++ "\n")

/-- Archive packages. -/
def archive (around : Surroundings) (s : Settings) (standard : Bool) (packages : List String)
    (store manifest moduleDir : Option String) (timeout : Option Nat) : Act Unit := do
  let store ← expect (storeDir s store)
  let manifest := manifest.getD (Location.join store "manifest.txt")
  let limit := (timeout.map (1000 * ·)).getD Package.GoCommand.defaultLimit
  let archivist : Package.Archivist Disk := {
    builder := Package.GoCommand.builder .whole ⟨around.launcher, s.goBinary, moduleDir, limit⟩
    disk := .whole
    storeDir := store
    manifestPath := manifest
    urlPrefix := Package.Archivist.defaultPrefix store }
  let targets := if standard then [.standard] else packages.map Package.Target.package
  let scene ← get
  let (result, _, disk) := archivist.run targets ⟨[], []⟩ scene.disk
  set { scene with disk := disk }
  match result with
  | .error e => fail (.custom .other e.message)
  | .ok report =>
    write (showReport manifest report)
    if !report.isSuccess then
      fail (.custom .other (toString report.failed.length ++ " package(s) failed to build"))

/-! ## Formatting and running -/

/-- Format a file, and write it back or print it. -/
def format (around : Surroundings) (s : Settings) (file : String) (rewrites verbose : Bool) :
    Act Unit := do
  let source ← onDisk (Job.ask (·.readText file))
  equipped around s fun gear => do
    let (answer, _) ← request around verbose gear (← freshBench around) (.format source)
    let session ← sessionOf answer
    judge session.outcome
    if rewrites then
      if session.source ≠ source then onDisk (Job.replaceFile file session.source.toUTF8)
    else write (·.print session.source)

/-- Build a file and write its frame. -/
def runFile (around : Surroundings) (s : Settings) (file : String) (verbose : Bool) : Act Unit := do
  let source ← onDisk (Job.ask (·.readText file))
  equipped around s fun gear => do
    let (_, bench) ← request around verbose gear (← freshBench around) .load
    let (answer, _) ← request around verbose gear bench (.run source)
    judge (← sessionOf answer).outcome

/-! ## The program -/

/-- The settings that hold for an invocation. -/
def gather (i : Invocation) : Act Settings := do
  let s ← onDisk (Job.ask (Settings.load · i.configFile))
  let overrides ← expect i.overrides
  match s.setAll overrides with
  | (s, none) => return s
  | (_, some e) => fail e

/-- Carry out an invocation. -/
def perform (around : Surroundings) (i : Invocation) : Act Unit := do
  let s ← gather i
  match i.action with
  | .precompile standard packages store manifest moduleDir timeout =>
    archive around s standard packages store manifest moduleDir timeout
  | .format file rewrites => format around s file rewrites i.verbose
  | .run file site cacheDir outDir =>
    let s := { s with
      assetRoot := site.getD s.assetRoot
      cacheDir := cacheDir.or s.cacheDir
      outDir := outDir.getD s.outDir }
    runFile around s file i.verbose

/-- What the program says when it is asked how it is used. -/
def usage : String := String.join <| List.map (· ++ "\n")
  ["Precompile Go packages for wasm and run programs against the store",
   "",
   "Usage: " ++ programName ++ " [OPTIONS] <COMMAND>",
   "",
   "Commands:",
   "  precompile  Build packages for wasm and archive them with their dependencies",
   "  fmt         Format a Go source file",
   "  run         Compile, link and stage a Go program as an execution frame",
   "  help        Print this message or the help of the given subcommand(s)",
   "",
   "Options:",
   "      --config <FILE>    Config file (default: ./wasmplay.toml if present)",
   "  -s, --set <KEY=VALUE>  Override a config value for this invocation (repeatable, KEY=VALUE)",
   "  -v, --verbose          Show session states and tool diagnostics summaries",
   "  -h, --help             Print help",
   "  -V, --version          Print version"]

/-- The exit status of the program, and what it leaves. -/
structure Exit where
  status : Nat
  scene : Scene

/-- End the program with an error. -/
def failed (scene : Scene) (e : Host.Error) : Exit :=
  ⟨1, { scene with terminal := scene.terminal.complain ("Error: " ++ e.detail ++ "\n") }⟩

/-- End the program where its command has stopped. What a program that breaks down says of the place
    in its text is left out. -/
def stopped (scene : Scene) : Stop → Exit
  | .failed cause => failed scene cause
  | .broken words =>
    let last := "\nthread 'main' panicked:\n" ++ words ++ "\n"
    ⟨101, { scene with terminal := scene.terminal.complain last }⟩

/-- Answer a command line that was refused, or that asks for help or for the version. -/
def decline (scene : Scene) (r : Refusal) : Exit :=
  let say (change : Terminal → Terminal) : Scene := { scene with terminal := change scene.terminal }
  match r with
  | .displayHelp => ⟨0, say (·.print usage)⟩
  | .displayVersion => ⟨0, say (·.print (programName ++ " " ++ Config.programVersion ++ "\n"))⟩
  | .displayHelpOnMissingArgumentOrSubcommand => ⟨2, say (·.complain usage)⟩
  | _ => failed scene r.toHost

/-- Run the program with the words of a command line on a disk. -/
def runProgram (around : Surroundings) (words : List String) (disk : Disk) : Exit :=
  let scene : Scene := ⟨disk, .blank⟩
  match Invocation.ofWords words with
  | .error r => decline scene r
  | .ok i =>
    match (perform around i).run scene with
    | (.ok (), scene) => ⟨0, scene⟩
    | (.error stop, scene) => stopped scene stop

end Workbench.Command
