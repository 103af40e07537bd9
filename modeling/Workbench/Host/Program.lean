import Workbench.Host.Disk

set_option autoImplicit false

/-! # Programs of the host

A program is launched with arguments, in a directory and with variables, and runs on the disk. It
ends by itself or is killed by a signal, or it is still running when the time it may take is used
up, and is then stopped where it stands. -/

namespace Workbench.Host

/-- A request to run a program. -/
structure Launch where
  /-- The path of the program, or a name to be looked for in the directories of programs. -/
  program : String
  args : List String
  /-- The directory to run in, if not the present one. -/
  directory : Option String
  /-- Variables to be set besides those that are there. -/
  environment : List (String × String)
  /-- The milliseconds that the program may take. -/
  patience : Nat
  deriving Repr, Inhabited

/-- The patience with programs that are waited for without a limit, which stands for all of time. -/
def Launch.unlimited : Nat := Nat.pow 2 64

/-- How a program ended. -/
inductive Ending where
  | exited (status : Nat)
  | killed (signal : Nat)
  deriving DecidableEq, Repr, Inhabited

/-- The exit status, if the program was not killed. -/
def Ending.status? : Ending → Option Nat
  | .exited status => some status
  | .killed _ => none

/-- What a program that has ended left behind. -/
structure Finished where
  ending : Ending
  stdout : ByteArray
  stderr : ByteArray
  /-- The milliseconds that it took. -/
  duration : Nat
  deriving Inhabited

/-- How a launch came out, if it was not refused. -/
inductive Launched where
  | finished (result : Finished)
  | running
  deriving Inhabited

/-- A way to run programs. -/
structure Launcher where
  launch : Launch → Disk → Except Error Launched × Disk

end Workbench.Host
