import Workbench.Host.Directory
import Workbench.Shell.Syntax

set_option autoImplicit false

/-! # The state of a shell

What a running script sees and changes: the disk, its variables and arguments, what its channels are
tied to, and how much time it has spent. Output goes to buffers, of which the first two are what the
script prints and complains; further ones hold what is captured. -/

namespace Workbench.Shell

open Host (Disk Job)

/-- What a channel for output is tied to. -/
inductive Sink where
  | buffer (index : Nat)
  | file (parts : List String)
  | nothing
  deriving DecidableEq, Repr, Inhabited

/-- The state of a shell. -/
structure Machine where
  disk : Disk
  buffers : List ByteArray
  channels : List (Nat × Sink)
  /-- What is left of the standard input. -/
  input : ByteArray
  environment : List (String × String)
  /-- The variables that programs see. -/
  exported : List String
  functions : List (String × Command)
  /-- The name under which the script was called. -/
  name : String
  args : List String
  /-- The exit status of the last command. -/
  status : Nat
  /-- The milliseconds spent so far, and how many may be spent. -/
  spent : Nat
  patience : Nat
  /-- Whether a failing command ends the script. -/
  strict : Bool
  deriving Inhabited

/-- How a command goes on. -/
inductive Flow where
  | next
  /-- So many loops are left. -/
  | leave (loops : Nat)
  /-- So many loops less one are left, and the last is gone on with. -/
  | again (loops : Nat)
  | returned
  | exited
  /-- The time is used up. -/
  | stopped
  | killed (signal : Nat)
  deriving DecidableEq, Repr, Inhabited

/-- Something that a shell does. -/
abbrev Doing (α : Type) := StateM Machine α

/-- A way to carry out commands; whether the outcome of the command is tested is told beforehand. -/
abbrev Exec := Bool → Command → Doing Flow

namespace Machine

/-! ## Output -/

/-- Write bytes to a channel. -/
def write (m : Machine) (channel : Nat) (bytes : ByteArray) : Machine :=
  match m.channels.lookup channel with
  | some (.buffer index) =>
    { m with buffers := m.buffers.modify index (· ++ bytes) }
  | some (.file parts) =>
    let append : Tree Nat → Tree Nat
      | .file data mode => .file (data ++ bytes) mode
      | node => node
    { m with disk := { m.disk with tree := m.disk.tree.modify append parts } }
  | _ => m

/-- Tie a channel to a sink. -/
def tie (m : Machine) (channel : Nat) (sink : Sink) : Machine :=
  { m with channels := (channel, sink) :: m.channels.filter (·.1 ≠ channel) }

/-! ## Variables -/

/-- The process number that a script is told. -/
def processNumber : String := "4242"

/-- Set a variable. -/
def setVariable (m : Machine) (name value : String) : Machine :=
  { m with environment := (name, value) :: m.environment.filter (·.1 ≠ name) }

/-- Show a variable to programs. -/
def exportVariable (m : Machine) (name : String) : Machine :=
  { m with exported := name :: m.exported.filter (· ≠ name) }

/-- Forget a variable. -/
def unsetVariable (m : Machine) (name : String) : Machine :=
  { m with
    environment := m.environment.filter (·.1 ≠ name)
    exported := m.exported.filter (· ≠ name) }

/-- The value of a parameter, if it is set. -/
def parameter? (m : Machine) (name : String) : Option String :=
  match name with
  | "#" => some (toString m.args.length)
  | "?" => some (toString m.status)
  | "$" => some processNumber
  | "0" => some m.name
  | "@" | "*" => if m.args.isEmpty then none else some (" ".intercalate m.args)
  | "-" | "!" => some ""
  | _ =>
    match name.toNat? with
    | some n => m.args[n - 1]?
    | none => m.environment.lookup name

end Machine

/-! ## Small doings -/

/-- Print bytes. -/
def emit (bytes : ByteArray) : Doing Unit := modify (·.write 1 bytes)

/-- Print a line. -/
def say (text : String) : Doing Unit := emit (text ++ "\n").toUTF8

/-- Complain in a line. -/
def complain (text : String) : Doing Unit := modify (·.write 2 (text ++ "\n").toUTF8)

/-- Complain about a line of the script. -/
def complainAt (line : Nat) (text : String) : Doing Unit := do
  complain ((← get).name ++ ": " ++ toString line ++ ": " ++ text)

/-- End a command with a status. -/
def finish (status : Nat) : Doing Flow := do
  modify fun m => { m with status := status }
  return .next

/-- Do a job on the disk. -/
def onDisk (job : Job Unit) : Doing (Except Host.Error Unit) := do
  let m ← get
  let (result, disk) := job.run m.disk
  set { m with disk := disk }
  return result

/-- The system's words for an error. -/
def reason : Host.Error → String
  | .system errno => errno.describe
  | e => e.message

/-- Do something in a shell of its own, of which only the disk, the output, the status and the time
    spent are left afterwards. -/
def enclosed (act : Doing Flow) : Doing Flow := do
  let before ← get
  let flow ← act
  modify fun m => { before with
    disk := { m.disk with cwd := before.disk.cwd }
    buffers := m.buffers
    input := m.input
    status := m.status
    spent := m.spent }
  match flow with
  | .stopped => return .stopped
  | .killed signal => return .killed signal
  | _ => return .next

/-- Do something in a shell of its own and capture what it prints. -/
def captured (act : Doing Flow) : Doing (Flow × ByteArray) := do
  let before ← get
  let index := before.buffers.length
  modify fun m => { m with buffers := m.buffers ++ [.empty] }
  let flow ← enclosed do
    modify (·.tie 1 (.buffer index))
    act
  let m ← get
  set { m with buffers := m.buffers.take index }
  return (flow, m.buffers.getD index .empty)

end Workbench.Shell
