import Workbench.Session.Build

set_option autoImplicit false

/-! # Scripted tools and frames

Tools and frames that follow scripts, for trying out sessions without a compiler. The script of a
tool is a list of actions on the file system and on time, which the tool carries out in order; a
frame's script says how its two reports come about. The n-th call follows the n-th script, and the
last script is followed from then on. Every call and every frame is recorded. -/

namespace Workbench.Session

/-- Something that a scripted tool does. -/
inductive Action where
  /-- Write to a descriptor, as a rule one of the standard streams. -/
  | print (descriptor : Nat) (data : ByteArray)
  /-- Write the file named by the argument after `-o`. -/
  | writeOutput (data : ByteArray)
  /-- Write the file named by the last argument. -/
  | writeSource (data : ByteArray)
  /-- Strip the blanks at the ends of the lines of the file named by the last argument. -/
  | trimSource
  /-- Read every archive of the configuration named by the argument after `-importcfg`, and print
      its size. -/
  | listArchives
  /-- Any operation on the file system, for its effect. -/
  | operate (operation : FileSystem.Operation)
  /-- Wait for so many milliseconds. -/
  | sleep (duration : Nat)
  /-- Wait for ever. -/
  | hang
  /-- Set the exit status; the script goes on. -/
  | exit (status : Int)
  /-- Stop with an error of the toolchain. -/
  | unavailable (reason : String)
  /-- Stop with an error of the host. -/
  | hostError (cause : Host.Error)

/-- How the reports of a scripted frame come about. -/
inductive FrameScript where
  | signals (signals : Frame.Signals)
  | error (cause : Frame.Error)
  deriving DecidableEq, Repr, Inhabited

/-- A world of scripts around a world of assets. -/
structure Rehearsal (Assets : Type) where
  assets : Assets
  tools : List (Tool × List (List Action))
  frames : List FrameScript
  /-- The calls of tools so far, last first. -/
  called : List (Tool × List String)
  /-- The modules and loaders of the frames so far, last first. -/
  framed : List (ByteArray × String)

namespace Rehearsal

variable {Assets : Type}

/-- The calls of tools so far, in order. -/
def calls (r : Rehearsal Assets) : List (Tool × List String) := r.called.reverse

/-- See a mount of the assets as a mount of the whole world. -/
def mount (m : Asset.Mount Assets) : Asset.Mount (Rehearsal Assets) where
  roots := m.roots
  fetch := fun r key =>
    let (result, assets) := m.fetch r.assets key
    (result, { r with assets := assets })

/-- The n-th of some scripts, or the last where there are fewer. -/
def nth? {α : Type} (scripts : List α) (n : Nat) : Option α := scripts[n]?.or scripts.getLast?

/-- The argument after a flag. -/
def argAfter (flag : String) : List String → String
  | a :: b :: rest => if a = flag then b else argAfter flag (b :: rest)
  | _ => ""

/-- What a tool does that has no script: the formatter nothing, the compiler and the linker write a
    fixed output. -/
def defaultScript : Tool → List Action
  | .format => []
  | .compile => [.writeOutput "!<arch>\nmain".toUTF8]
  | .link => [.writeOutput ⟨#[0, 0x61, 0x73, 0x6d, 1, 0, 0, 0]⟩]

/-- Every line without the blanks at its end. -/
def trimLines (text : String) : String :=
  String.join ((Text.linesOf text).map fun line => String.ofList (Text.trimEnd line) ++ "\n")

/-- Print the size of each archive of some bindings, reading it through the file system. -/
def printArchives (m : Option (Asset.Mount (Rehearsal Assets))) :
    List (String × String) → FileSystem → Rehearsal Assets →
      Except FileSystem.Error Unit × FileSystem × Rehearsal Assets
  | [], fs, r => (.ok (), fs, r)
  | (source, archive) :: rest, fs, r =>
    match fs.readAll m r archive with
    | (.error e, fs, r) => (.error e, fs, r)
    | (.ok data, fs, r) =>
      let line := source ++ " " ++ toString data.size ++ "\n"
      match fs.write 1 line.toUTF8 none with
      | .ok (_, fs) => printArchives m rest fs r
      | .error e => (.error e, fs, r)

/-- Carry out an action that concerns the file system. -/
def act (m : Option (Asset.Mount (Rehearsal Assets))) (args : List String) (action : Action)
    (fs : FileSystem) (r : Rehearsal Assets) :
    Except FileSystem.Error Unit × FileSystem × Rehearsal Assets :=
  let operate (operation : FileSystem.Operation) (fs : FileSystem) (r : Rehearsal Assets) :=
    let (result, fs, r) := fs.perform m r operation
    (result.map fun _ => (), fs, r)
  let source := args.getLast?.getD ""
  match action with
  | .print descriptor data => operate (.write descriptor data none) fs r
  | .writeOutput data => operate (.writeFile (argAfter "-o" args) data) fs r
  | .writeSource data => operate (.writeFile source data) fs r
  | .trimSource =>
    match fs.readAll m r source with
    | (.error e, fs, r) => (.error e, fs, r)
    | (.ok data, fs, r) =>
      operate (.writeFile source (trimLines (Text.ofUtf8Lossy data)).toUTF8) fs r
  | .listArchives =>
    match fs.readAll m r (argAfter "-importcfg" args) with
    | (.error e, fs, r) => (.error e, fs, r)
    | (.ok data, fs, r) =>
      printArchives m (ImportConfig.parse (Text.ofUtf8Lossy data)).entries fs r
  | .operate operation => operate operation fs r
  | _ => (.ok (), fs, r)

/-- Follow a script, with an exit status and a patience. -/
def follow (m : Option (Asset.Mount (Rehearsal Assets))) (tool : Tool) (args : List String) :
    List Action → Int → Nat → FileSystem → Rehearsal Assets →
      Toolchain.Run × FileSystem × Rehearsal Assets
  | [], status, patience, fs, r => (.exited status patience, fs, r)
  | action :: rest, status, patience, fs, r =>
    match action with
    | .sleep duration =>
      if duration > 0 && duration ≥ patience then (.running, fs, r)
      else follow m tool args rest status (patience - duration) fs r
    | .hang => (.running, fs, r)
    | .exit status => follow m tool args rest status patience fs r
    | .unavailable reason => (.failed (.unavailable tool reason), fs, r)
    | .hostError cause => (.failed (.host cause), fs, r)
    | _ =>
      match act m args action fs r with
      | (.ok (), fs, r) => follow m tool args rest status patience fs r
      | (.error e, fs, r) => (.failed (.fileSystem e), fs, r)

/-- The script for the next call of a tool. -/
def nextScript (r : Rehearsal Assets) (tool : Tool) : List Action :=
  let made := (r.called.filter (·.1 = tool)).length
  (nth? ((r.tools.lookup tool).getD []) made).getD (defaultScript tool)

/-- The toolchain that follows the scripts. -/
def toolchain : Toolchain (Rehearsal Assets) where
  run := fun m tool args patience fs r =>
    follow m tool args (r.nextScript tool) 0 patience fs
      { r with called := (tool, args) :: r.called }

/-- The frames that follow the scripts; without scripts both reports arrive at once. -/
def frameHost : FrameHost (Rehearsal Assets) where
  create := fun module loader r =>
    let script := (nth? r.frames r.framed.length).getD (.signals .complete)
    let r := { r with framed := (module, loader) :: r.framed }
    match script with
    | .signals s => (.ok s, r)
    | .error e => (.error e, r)

end Rehearsal

end Workbench.Session
