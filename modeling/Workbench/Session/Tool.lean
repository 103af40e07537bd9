import Workbench.FileSystem.Operation

set_option autoImplicit false

/-! # Tools

The formatter, the compiler and the linker are opaque. A toolchain runs one of them with arguments
on the file system, which is where the tool finds its input and leaves its output. A run takes time:
it is given the milliseconds that it may wait, and is left where it stands when they are used up. -/

namespace Workbench

/-- The three tools. -/
inductive Tool where
  | format
  | compile
  | link
  deriving DecidableEq, Repr, Inhabited

/-- The name of a tool. -/
def Tool.name : Tool → String
  | .format => "format"
  | .compile => "compile"
  | .link => "link"

/-- The tools in the order in which a session uses them. -/
def Tool.all : List Tool := [.format, .compile, .link]

/-- The tool with a name. -/
def Tool.ofName? (name : String) : Option Tool := Tool.all.find? (·.name == name)

/-- Whether an exit status means success. -/
def isSuccess (status : Int) : Bool := status == 0

namespace Toolchain

/-- Why a tool could not be run. What a tool has to say about its input is no such error. -/
inductive Error where
  | unavailable (tool : Tool) (reason : String)
  | host (cause : Host.Error)
  | fileSystem (cause : FileSystem.Error)
  deriving DecidableEq, Repr, Inhabited

/-- The wording of a toolchain error. -/
def Error.message : Error → String
  | .unavailable tool reason => tool.name ++ " unavailable: " ++ reason
  | .host cause => "toolchain I/O failed: " ++ cause.message
  | .fileSystem cause => "toolchain filesystem access failed: " ++ cause.message

/-- How the run of a tool stands when its time is used up or earlier. -/
inductive Run where
  /-- The tool has ended with a status, with so many milliseconds left. -/
  | exited (status : Int) (left : Nat)
  /-- The tool could not be run. -/
  | failed (cause : Error)
  /-- The tool is still waiting. -/
  | running
  deriving DecidableEq, Repr, Inhabited

end Toolchain

/-- A way to run tools in a world. -/
structure Toolchain (World : Type) where
  /-- Run a tool with arguments on a file system with a mount, waiting for at most `patience`
      milliseconds. -/
  run : Option (Asset.Mount World) → Tool → List String → Nat → FileSystem → World →
    Toolchain.Run × FileSystem × World

end Workbench
