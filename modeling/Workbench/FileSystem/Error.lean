import Workbench.Asset.Error
import Workbench.Path

set_option autoImplicit false

/-! # Errors of the in-memory file system

Each error names the path, the descriptor or the argument that was refused. -/

namespace Workbench.FileSystem

/-- Why an operation on the file system was refused. -/
inductive Error where
  | notFound (path : String)
  | alreadyExists (path : String)
  | notDirectory (path : String)
  | isDirectory (path : String)
  | notEmpty (path : String)
  | badDescriptor (descriptor : Nat)
  | invalidPath (reason : String)
  | invalidArgument (reason : String)
  | fetch (path : String) (cause : Asset.Error)
  deriving DecidableEq, Repr, Inhabited

namespace Error

/-- The error code that a tool sees. -/
def code : Error → String
  | .notFound _ => "ENOENT"
  | .alreadyExists _ => "EEXIST"
  | .notDirectory _ => "ENOTDIR"
  | .isDirectory _ => "EISDIR"
  | .notEmpty _ => "ENOTEMPTY"
  | .badDescriptor _ => "EBADF"
  | .invalidPath _ => "EINVAL"
  | .invalidArgument _ => "EINVAL"
  | .fetch .. => "EIO"

/-- The wording of an error. -/
def message : Error → String
  | .notFound path => "no such file or directory: " ++ path
  | .alreadyExists path => "file exists: " ++ path
  | .notDirectory path => "not a directory: " ++ path
  | .isDirectory path => "is a directory: " ++ path
  | .notEmpty path => "directory not empty: " ++ path
  | .badDescriptor descriptor => "bad file descriptor: " ++ toString descriptor
  | .invalidPath reason => "invalid path: " ++ reason
  | .invalidArgument reason => "invalid argument: " ++ reason
  | .fetch path cause => "failed to fetch asset " ++ path ++ ": " ++ cause.message

/-- The kind that the error has among the errors of the host. -/
def kind : Error → Host.ErrorKind
  | .notFound _ => .notFound
  | .alreadyExists _ => .alreadyExists
  | .notDirectory _ => .notADirectory
  | .isDirectory _ => .isADirectory
  | .notEmpty _ => .directoryNotEmpty
  | .badDescriptor _ => .invalidInput
  | .invalidPath _ => .invalidInput
  | .invalidArgument _ => .invalidInput
  | .fetch .. => .other

/-- The error as an error of the host. -/
def toHost (e : Error) : Host.Error := .custom e.kind e.message

/-- A text that is not a path. -/
def ofPath (e : PathError) : Error := .invalidPath e.message

end Error

end Workbench.FileSystem
