set_option autoImplicit false

/-! # Errors of the host

What a request to the operating system, or a program's own handling of one, can fail with. Each
error has a kind, on which programs branch, and a text. An error of the system itself is a number
with a fixed wording. -/

namespace Workbench.Host

/-- The kinds of failure that programs tell apart. -/
inductive ErrorKind where
  | notFound
  | permissionDenied
  | alreadyExists
  | notADirectory
  | isADirectory
  | directoryNotEmpty
  | invalidInput
  | invalidData
  | invalidFilename
  | timedOut
  | brokenPipe
  | resourceBusy
  | filesystemLoop
  | uncategorized
  | other
  deriving DecidableEq, Repr, Inhabited

/-- The name of a kind. -/
def ErrorKind.name : ErrorKind → String
  | .notFound => "NotFound"
  | .permissionDenied => "PermissionDenied"
  | .alreadyExists => "AlreadyExists"
  | .notADirectory => "NotADirectory"
  | .isADirectory => "IsADirectory"
  | .directoryNotEmpty => "DirectoryNotEmpty"
  | .invalidInput => "InvalidInput"
  | .invalidData => "InvalidData"
  | .invalidFilename => "InvalidFilename"
  | .timedOut => "TimedOut"
  | .brokenPipe => "BrokenPipe"
  | .resourceBusy => "ResourceBusy"
  | .filesystemLoop => "FilesystemLoop"
  | .uncategorized => "Uncategorized"
  | .other => "Other"

/-- The errors of the operating system that the file operations here can meet. -/
inductive Errno where
  | notPermitted
  | noEntry
  | execFormat
  | access
  | busy
  | fileExists
  | notDir
  | isDir
  | invalid
  | nameTooLong
  | notEmpty
  deriving DecidableEq, Repr, Inhabited

namespace Errno

/-- The number of an error. -/
def number : Errno → Nat
  | .notPermitted => 1
  | .noEntry => 2
  | .execFormat => 8
  | .access => 13
  | .busy => 16
  | .fileExists => 17
  | .notDir => 20
  | .isDir => 21
  | .invalid => 22
  | .nameTooLong => 36
  | .notEmpty => 39

/-- The system's wording of an error. -/
def describe : Errno → String
  | .notPermitted => "Operation not permitted"
  | .noEntry => "No such file or directory"
  | .execFormat => "Exec format error"
  | .access => "Permission denied"
  | .busy => "Device or resource busy"
  | .fileExists => "File exists"
  | .notDir => "Not a directory"
  | .isDir => "Is a directory"
  | .invalid => "Invalid argument"
  | .nameTooLong => "File name too long"
  | .notEmpty => "Directory not empty"

/-- The kind of an error. -/
def kind : Errno → ErrorKind
  | .notPermitted => .permissionDenied
  | .noEntry => .notFound
  | .execFormat => .uncategorized
  | .access => .permissionDenied
  | .busy => .resourceBusy
  | .fileExists => .alreadyExists
  | .notDir => .notADirectory
  | .isDir => .isADirectory
  | .invalid => .invalidInput
  | .nameTooLong => .invalidFilename
  | .notEmpty => .directoryNotEmpty

end Errno

/-- A failed request: refused by the system, or reported by a program with a text, which is either
    made for the occasion (`custom`) or one of a fixed stock (`fixed`). -/
inductive Error where
  | system (errno : Errno)
  | custom (kind : ErrorKind) (text : String)
  | fixed (kind : ErrorKind) (text : String)
  deriving DecidableEq, Repr, Inhabited

namespace Error

/-- The kind of an error. -/
def kind : Error → ErrorKind
  | .system errno => errno.kind
  | .custom kind _ => kind
  | .fixed kind _ => kind

/-- The text of an error. -/
def message : Error → String
  | .system errno => errno.describe ++ " (os error " ++ toString errno.number ++ ")"
  | .custom _ text => text
  | .fixed _ text => text

/-- A file that is read as text holds bytes that are no UTF-8. -/
def notUtf8 : Error := .fixed .invalidData "stream did not contain valid UTF-8"

end Error

end Workbench.Host
