import Workbench.Host.Error

set_option autoImplicit false

/-! # Execution frames

A frame is a fresh context that runs a module under a small loader and reports twice: when the
module has run to its end, and when the frame itself has loaded. A session is over when both reports
have arrived, in either order, or can no longer arrive. -/

namespace Workbench.Frame

/-- The loader that runs inside every frame. It expects the name `Go` of the runtime support script
    and finds the module at `MODULE_URL`. -/
def bootstrap : String := String.join <| List.map (· ++ "\n")
  ["(async () => \x7b",
   "  const go = new Go();",
   "  const notify = (type) => window.parent.postMessage(\x7b type \x7d, \"*\");",
   "  window.addEventListener(\"load\", () => notify(\"frame-loaded\"));",
   "  try \x7b",
   "    const \x7b instance \x7d = await WebAssembly.instantiateStreaming(fetch(MODULE_URL), go.importObject);",
   "    await go.run(instance);",
   "  \x7d catch (err) \x7b",
   "    console.error(err);",
   "  \x7d",
   "  notify(\"module-done\");",
   "\x7d)();"]

/-- Why a frame did not come to its end. -/
inductive Error where
  | create (reason : String)
  | closed (awaited : String)
  | host (cause : Host.Error)
  deriving DecidableEq, Repr, Inhabited

/-- The wording of a frame error. -/
def Error.message : Error → String
  | .create reason => "failed to create execution frame: " ++ reason
  | .closed awaited => "execution frame closed before signalling " ++ awaited
  | .host cause => "execution frame I/O failed: " ++ cause.message

/-- One of the two reports, as known in advance: after how many milliseconds it arrives, that its
    sender is gone, or that nothing will be heard. -/
inductive Signal where
  | arrives (after : Nat)
  | lost
  | silent
  deriving DecidableEq, Repr, Inhabited

namespace Signal

/-- When the signal is settled, if ever. -/
def settled? : Signal → Option Nat
  | .arrives after => some after
  | .lost => some 0
  | .silent => none

/-- Send the signal, unless it is settled. -/
def send : Signal → Signal
  | .silent => .arrives 0
  | s => s

/-- Drop the sender of the signal, unless it is settled. -/
def drop : Signal → Signal
  | .silent => .lost
  | s => s

end Signal

/-- The two reports of a frame. -/
structure Signals where
  done : Signal
  loaded : Signal
  deriving DecidableEq, Repr, Inhabited

namespace Signals

/-- Both reports arrive at once. -/
def complete : Signals := ⟨.arrives 0, .arrives 0⟩

/-- When both reports are settled, if ever. -/
def settled? (s : Signals) : Option Nat := do return max (← s.done.settled?) (← s.loaded.settled?)

/-- What the settled reports amount to; a lost end of the module counts before a lost load. -/
def outcome (s : Signals) : Except Error Unit :=
  if s.done = .lost then .error (.closed "module completion")
  else if s.loaded = .lost then .error (.closed "load")
  else .ok ()

/-- The outcome, once both reports are settled. -/
def outcome? (s : Signals) : Option (Except Error Unit) := s.settled?.map fun _ => s.outcome

end Signals

end Workbench.Frame

namespace Workbench

/-- A way to make frames in a world. -/
structure FrameHost (World : Type) where
  /-- Make a fresh frame that runs a module under a loader. -/
  create : ByteArray → String → World → Except Frame.Error Frame.Signals × World

end Workbench
