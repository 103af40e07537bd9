import Workbench.Host.Error
import Workbench.Text.Quoted

set_option autoImplicit false

/-! # Errors in detail

An error as it is shown when it ends a program: where it comes from, with its number or kind and
with its text between quotes. -/

namespace Workbench.Host.Error

/-- A named record in one line. -/
def record (name : String) (fields : List (String × String)) : String :=
  name ++ " \x7b " ++ ", ".intercalate (fields.map fun (field, value) => field ++ ": " ++ value) ++
    " \x7d"

/-- The details of an error. -/
def detail : Error → String
  | .system errno => record "Os"
      [("code", toString errno.number), ("kind", errno.kind.name),
        ("message", Text.quoted errno.describe)]
  | .custom kind text => record "Custom" [("kind", kind.name), ("error", Text.quoted text)]
  | .fixed kind text => record "Error" [("kind", kind.name), ("message", Text.quoted text)]

end Workbench.Host.Error
