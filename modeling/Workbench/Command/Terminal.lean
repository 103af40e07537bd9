import Workbench.Session.Event

set_option autoImplicit false

/-! # The terminal

What a command prints and what it complains. The output of tools goes where the tools have written
it; what the program has to say itself stands in brackets and goes to the standard error, so that
the standard output holds nothing but the text that was asked for. -/

namespace Workbench.Command

/-- What has been written to the standard streams. -/
structure Terminal where
  stdout : String
  stderr : String
  deriving DecidableEq, Repr, Inhabited

namespace Terminal

/-- A terminal to which nothing has been written. -/
def blank : Terminal := ⟨"", ""⟩

/-- Write to the standard output. -/
def print (t : Terminal) (text : String) : Terminal := { t with stdout := t.stdout ++ text }

/-- Write to the standard error. -/
def complain (t : Terminal) (text : String) : Terminal := { t with stderr := t.stderr ++ text }

/-- Write a remark in brackets. -/
def remark (t : Terminal) (text : String) : Terminal := t.complain ("[" ++ text ++ "]\n")

/-- Show an event. States, counts and sizes are shown only if they are wanted. -/
def display (verbose : Bool) (t : Terminal) (event : Session.Event) : Terminal :=
  let aside (text : String) : Terminal := if verbose then t.remark text else t
  match event with
  | .output _ stdout stderr => (t.print stdout).complain stderr
  | .timedOut seconds => t.remark ("exceeded time limit of " ++ toString seconds ++ "s")
  | .environmentError message => t.remark ("environment error: " ++ message)
  | .state kind state => aside (kind.name ++ ": " ++ state.name)
  | .diagnostics tool found =>
    aside (tool.name ++ ": " ++ toString found.length ++ " diagnostic(s)")
  | .frameCreated size => aside ("frame created: " ++ toString size ++ " byte module")
  | .formatted _ => t

end Terminal

end Workbench.Command
