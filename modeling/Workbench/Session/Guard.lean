import Workbench.Session.Event

set_option autoImplicit false

/-! # The gate of a session

Everything that a session reports passes its gate, which lets it settle once: the first settlement
is reported, with at most one more event after it, and from then on nothing passes. -/

namespace Workbench.Session

/-- The gate of a session, with the events that have passed it, in order. -/
structure Gate where
  kind : Kind
  state : State
  isSettled : Bool
  passed : List Event
  deriving DecidableEq, Repr, Inhabited

namespace Gate

/-- The gate of a session that begins. -/
def start (kind : Kind) : Gate := ⟨kind, .idle, false, []⟩

/-- Report an event. -/
def emit (g : Gate) (event : Event) : Gate :=
  if g.isSettled then g else { g with passed := g.passed ++ [event] }

/-- Settle in a state, and report an event after it. Whether the gate was settled by this. -/
def settle (g : Gate) (state : State) (extra : Option Event) : Bool × Gate :=
  if g.isSettled then (false, g)
  else (true, { g with
    state := state
    isSettled := true
    passed := g.passed ++ Event.state g.kind state :: extra.toList })

/-- Move to a state; a terminal one settles the session. -/
def transition (g : Gate) (state : State) : Gate :=
  if state.isTerminal then (g.settle state none).2
  else if g.isSettled then g
  else { g with state := state, passed := g.passed ++ [Event.state g.kind state] }

end Gate

end Workbench.Session
