import Workbench.Config
import Workbench.Host.Disk

set_option autoImplicit false

/-! # Settings on the host

Reading settings from a file. A file that is not there leaves everything as it is by default. -/

namespace Workbench.Config

/-- Why a file of settings cannot be used. -/
inductive FileError where
  /-- The file cannot be read. -/
  | unreadable (path : String) (cause : Host.Error)
  /-- The text of the file sets nothing. -/
  | invalid
  deriving DecidableEq, Repr, Inhabited

/-- The failure as an error of the host. -/
def FileError.toHost : FileError → Host.Error
  | .unreadable path cause =>
    .custom cause.kind ("failed to read '" ++ path ++ "': " ++ cause.message)
  | .invalid => .custom .invalidData "invalid config"

/-- Read the settings in a file. -/
def load (d : Host.Disk) (path : String) : Except FileError Config :=
  match d.readText path with
  | .ok text =>
    match ofToml? text with
    | some c => .ok c
    | none => .error .invalid
  | .error e => if e.kind = .notFound then .ok default else .error (.unreadable path e)

/-- Read the settings that a directory holds. -/
def loadFrom (d : Host.Disk) (dir : String) : Except FileError Config :=
  load d (Host.Location.join dir fileName)

end Workbench.Config
