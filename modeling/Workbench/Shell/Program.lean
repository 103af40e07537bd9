import Workbench.Host.Program
import Workbench.Shell.Interpreter

set_option autoImplicit false

/-! # Launching programs

A launcher whose programs are shell scripts on the disk and the utilities that every system has. A
launch that is refused leaves the disk alone, and one whose time is used up leaves it as the program
has made it so far. The working directory of a program is its own. -/

namespace Workbench.Shell

open Host (Disk Launch Launched)

/-- The machine on which a program begins to run: nothing is to be read from its standard input, and
    what it prints and complains is gathered. -/
def Machine.start (d : Disk) (environment : List (String × String)) (patience : Nat) : Machine where
  disk := d
  buffers := [.empty, .empty]
  channels := [(1, .buffer 0), (2, .buffer 1)]
  input := .empty
  environment := environment
  exported := environment.map Prod.fst
  functions := []
  name := ""
  args := []
  status := 0
  spent := 0
  patience := patience
  strict := false

/-- Refuse a launch in which a text holds a character that no argument of a program can hold. -/
def checkTexts (l : Launch) : Except Host.Error Unit :=
  if (l.program :: l.args ++ l.directory.toList).any (·.toList.contains '\x00') then
    .error (.fixed .invalidInput "nul byte found in provided data")
  else .ok ()

/-- The program that a launch asks for, and the machine to run it on. -/
def prepare (ambient : List (String × String)) (l : Launch) (d : Disk) :
    Except Host.Error (Executable × Machine) := do
  checkTexts l
  let cwd ← match l.directory with
    | none => pure d.cwd
    | some directory =>
      match ← d.find directory with
      | (parts, .dir ..) => pure parts
      | (_, .file ..) => Host.refuse .notDir
  let environment := l.environment ++ ambient.filter fun v => (l.environment.lookup v.1).isNone
  let m := Machine.start { d with cwd := cwd } environment l.patience
  return (← findProgram m.disk (searchPath m) l.program, m)

/-- How a program has come out. A program that may take no time at all is stopped before it does
    anything. -/
def outcome (program : Executable) (args : List String) (m : Machine) : Launched × Disk :=
  if m.patience = 0 then (.running, m.disk)
  else
    let (flow, after) := (runExecutable (run maxTurns) args program).run m
    let finished (ending : Host.Ending) : Launched := .finished
      ⟨ending, after.buffers.getD 0 .empty, after.buffers.getD 1 .empty, after.spent⟩
    match flow with
    | .stopped => (.running, after.disk)
    | .killed signal => (finished (.killed signal), after.disk)
    | _ => (finished (.exited after.status), after.disk)

/-- The launcher of a system with these variables, of which `PATH` names the directories of
    programs. -/
def launcher (ambient : List (String × String)) : Host.Launcher where
  launch := fun l d =>
    match prepare ambient l d with
    | .error e => (.error e, d)
    | .ok (program, m) =>
      let (launched, disk) := outcome program l.args m
      (.ok launched, { disk with cwd := d.cwd })

end Workbench.Shell
