import Workbench.Text.Split

set_option autoImplicit false

/-! # Paths of the host

A path of the host is a text. What programs do with it beside handing it to the system is to take it
apart: its components are the pieces between slashes, where empty pieces and `.` count for nothing,
except that a relative path may begin with a `.`. A `..` is a component like any other, since what
it leads to is for the system to say. -/

namespace Workbench.Host

/-- A path of the host, taken apart. -/
structure Location where
  isAbsolute : Bool
  /-- The components, outermost first. -/
  parts : List String
  deriving DecidableEq, Repr, Inhabited

namespace Location

/-- Whether a text is an absolute path. -/
def isRooted (text : String) : Bool := text.toList.head? = some '/'

/-- The pieces of a text between slashes. -/
def pieces (text : String) : List String := (Text.splitOn '/' text.toList).map String.ofList

/-- Take a path apart. -/
def ofText (text : String) : Location :=
  let named := (pieces text).filter fun piece => piece ≠ "" ∧ piece ≠ "."
  ⟨isRooted text, if (pieces text).head? = some "." then "." :: named else named⟩

/-- The path with these components. -/
def toText (l : Location) : String := (if l.isAbsolute then "/" else "") ++ "/".intercalate l.parts

/-- Whether the path is empty. -/
def isEmpty (l : Location) : Bool := !l.isAbsolute && l.parts.isEmpty

/-- The path without its last component; the root and the empty path have none. -/
def parent? (l : Location) : Option Location :=
  if l.parts.isEmpty then none else some { l with parts := l.parts.dropLast }

/-- The last component, if it is a name. -/
def fileName? (l : Location) : Option String :=
  l.parts.getLast?.filter fun name => name ≠ ".." ∧ name ≠ "."

/-- The path of a text as seen from another; an absolute one stays as it is. -/
def join (base text : String) : String :=
  if isRooted text || base.isEmpty then text
  else if base.toList.getLast? = some '/' then base ++ text
  else base ++ "/" ++ text

/-- The text of the parent of a path, if there is one. -/
def parentText? (text : String) : Option String := (ofText text).parent?.map toText

end Location

end Workbench.Host
