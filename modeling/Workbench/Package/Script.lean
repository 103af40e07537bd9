import Workbench.Package.Archive

set_option autoImplicit false

/-! # Scripted builders

A builder that follows a script, for trying out the archiving of packages without a compiler. For
each package the script has answers to each question: the n-th question gets the n-th answer, and
the last answer is given from then on. A command of the script may create files. Every call is
recorded. -/

namespace Workbench.Package

open Host (Disk)

/-- What a scripted command does: the files it creates, or the directories where there is no
    content, and what it prints or how it fails. -/
structure ScriptedCommand where
  files : List (String × Option ByteArray)
  result : Except Host.Error Printout
  deriving Inhabited

/-- The answers to each question, by package. -/
structure BuildScript where
  standard : Except Host.Error (List String)
  available : List (String × List (Except Host.Error Bool))
  fetch : List (String × List ScriptedCommand)
  build : List (String × List ScriptedCommand)
  deriving Inhabited

/-- A call of a builder. -/
inductive BuildCall where
  | listStandard
  | available (package : String)
  | fetch (package : String)
  | build (package : String)
  deriving DecidableEq, Repr, Inhabited

/-- A call as a text. -/
def BuildCall.toText : BuildCall → String
  | .listStandard => "list_std"
  | .available package => "available " ++ package
  | .fetch package => "fetch " ++ package
  | .build package => "build " ++ package

/-- A disk, the script, and the calls so far, last first. -/
structure BuildRehearsal where
  disk : Disk
  script : BuildScript
  called : List BuildCall
  /-- How many of the calls, counted from the first, the present builder knows nothing of. -/
  forgotten : Nat
  deriving Inhabited

namespace BuildRehearsal

/-- The disk of a rehearsal. -/
def diskPart : Part BuildRehearsal Disk := ⟨disk, fun r d => { r with disk := d }⟩

/-- The rehearsal with a new builder, which begins the script anew. -/
def restart (r : BuildRehearsal) : BuildRehearsal := { r with forgotten := r.called.length }

/-- The calls so far, in order. -/
def calls (r : BuildRehearsal) : List BuildCall := r.called.reverse

/-- The answer that a call gets from those for its package, and the record of the call. -/
def next {α : Type} (r : BuildRehearsal) (call : BuildCall)
    (answers : List (String × List α)) (package : String) (fallback : α) : α × BuildRehearsal :=
  let known := r.called.take (r.called.length - r.forgotten)
  let own := (answers.lookup package).getD []
  (((own[known.count call]?).or own.getLast?).getD fallback, { r with called := call :: r.called })

/-- Carry out a scripted command. -/
def perform (step : ScriptedCommand × BuildRehearsal) :
    Except Host.Error Printout × BuildRehearsal :=
  let (command, r) := step
  let create (disk : Disk) (file : String × Option ByteArray) : Disk :=
    ((Host.Job.install file.1 file.2 Disk.fileMode).run disk).2
  (command.result, { r with disk := command.files.foldl create r.disk })

/-- What a command does that has no script. -/
def silent : ScriptedCommand := ⟨[], .ok ⟨true, "", ""⟩⟩

/-- The builder that follows the script. -/
def builder : Builder BuildRehearsal where
  listStandard := fun r => (r.script.standard, { r with called := .listStandard :: r.called })
  isAvailable := fun r package => r.next (.available package) r.script.available package (.ok true)
  fetch := fun r package => perform (r.next (.fetch package) r.script.fetch package silent)
  build := fun r package => perform (r.next (.build package) r.script.build package silent)

end BuildRehearsal

end Workbench.Package
