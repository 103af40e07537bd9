import Workbench.Diagnostic
import Workbench.Manifest
import Workbench.Session.Frame
import Workbench.Session.Tool

set_option autoImplicit false

/-! # Sessions and their events

What a session is started for, the states it passes through, what it reports on the way, and what is
left of it when it has settled. -/

namespace Workbench.Session

/-- What a session is started for. -/
inductive Kind where
  /-- To format the source. -/
  | format
  /-- To format, compile and link the source and to execute the module. -/
  | run
  deriving DecidableEq, Repr, Inhabited

/-- The name of a kind. -/
def Kind.name : Kind → String
  | .format => "format"
  | .run => "run"

/-- The states of a session. -/
inductive State where
  | idle
  | formatting
  | compiling
  | linking
  | ready
  | failed
  | timedOut
  deriving DecidableEq, Repr, Inhabited

namespace State

/-- The name of a state. -/
def name : State → String
  | .idle => "idle"
  | .formatting => "formatting"
  | .compiling => "compiling"
  | .linking => "linking"
  | .ready => "ready"
  | .failed => "failed"
  | .timedOut => "timed_out"

/-- All states, in the order in which a session can reach them. -/
def all : List State := [.idle, .formatting, .compiling, .linking, .ready, .failed, .timedOut]

/-- Whether a session ends in this state. -/
def isTerminal : State → Bool
  | .ready | .failed | .timedOut => true
  | _ => false

end State

/-- What a session reports. -/
inductive Event where
  /-- The session is in a new state. -/
  | state (kind : Kind) (state : State)
  /-- The source has been formatted. -/
  | formatted (source : String)
  /-- A tool has written to its standard streams. -/
  | output (tool : Tool) (stdout stderr : String)
  /-- A tool has found fault with the source. -/
  | diagnostics (tool : Tool) (found : List Diagnostic)
  /-- A module of so many bytes was handed to a frame. -/
  | frameCreated (size : Nat)
  /-- The session has used up its seconds. -/
  | timedOut (seconds : Nat)
  /-- Something other than the source is at fault. -/
  | environmentError (message : String)
  deriving DecidableEq, Repr, Inhabited

/-- The states reported among events. -/
def Event.states (events : List Event) : List State :=
  events.filterMap fun
    | .state _ s => some s
    | _ => none

/-- A stage that ended with a fault of the source. -/
structure Failure where
  stage : Tool
  message : String
  diagnostics : List Diagnostic
  deriving DecidableEq, Repr, Inhabited

/-- How a session ended. -/
inductive Outcome where
  | formatted
  | ready (module : ByteArray)
  | failed (failure : Failure)
  | timedOut
  deriving Inhabited

namespace Outcome

/-- The state in which a session with this outcome settles. After formatting it is idle again. -/
def state : Outcome → State
  | .formatted => .idle
  | .ready _ => .ready
  | .failed _ => .failed
  | .timedOut => .timedOut

/-- The module that was built and run. -/
def module? : Outcome → Option ByteArray
  | .ready m => some m
  | _ => none

/-- The failure of a stage. -/
def failure? : Outcome → Option Failure
  | .failed f => some f
  | _ => none

end Outcome

/-- Why a session has no outcome: something other than the source is at fault. -/
inductive Error where
  | busy
  | notLoaded
  | asset (cause : Asset.Error)
  | manifest (cause : Manifest.Error)
  | fileSystem (cause : FileSystem.Error)
  | toolchain (cause : Toolchain.Error)
  | frame (cause : Frame.Error)
  deriving DecidableEq, Repr, Inhabited

/-- The wording of a session error. -/
def Error.message : Error → String
  | .busy => "a build session is already in flight"
  | .notLoaded => "playground not loaded"
  | .asset cause => cause.message
  | .manifest cause => cause.message
  | .fileSystem cause => cause.message
  | .toolchain cause => cause.message
  | .frame cause => cause.message

end Workbench.Session

namespace Workbench

/-- A settled session. -/
structure Session where
  kind : Session.Kind
  /-- The formatted source, or the submitted one if it was not formatted. -/
  source : String
  stdout : String
  stderr : String
  outcome : Session.Outcome
  deriving Inhabited

/-- The state in which the session settled. -/
def Session.state (s : Session) : Session.State := s.outcome.state

end Workbench
