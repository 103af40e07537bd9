import Workbench.Proofs.TraceLaw

set_option autoImplicit false

/-! # A gate settles once

The gate of a session may be called by its stages, by what ends it and by what comes too late, in
any order and any number of times. An open gate lets through what a call reports. The first call
that settles it is let through as a whole, and from then on no call does anything. So a run of calls
falls apart at the first one that settles: the calls before it have been heard, in order, it has
been heard last, and the state in which it has settled stays. -/

namespace Workbench.Session

/-- A call on the gate of a session. -/
inductive GateCall where
  | emit (event : Event)
  | transition (state : State)
  | settle (state : State) (extra : Option Event)
  deriving DecidableEq, Repr

namespace GateCall

/-- Carry out a call. Only the one that is to settle is answered. -/
def perform (g : Gate) : GateCall → Option Bool × Gate
  | .emit event => (none, g.emit event)
  | .transition state => (none, g.transition state)
  | .settle state extra => (some (g.settle state extra).1, (g.settle state extra).2)

/-- The state in which a call settles an open gate, and the event that is reported after it. -/
def settlement? : GateCall → Option (State × Option Event)
  | .emit _ => none
  | .transition state => if state.isTerminal then some (state, none) else none
  | .settle state extra => some (state, extra)

/-- The state to which a call moves an open gate that stays open. -/
def moved? : GateCall → Option State
  | .transition state => some state
  | _ => none

/-- What a call reports at an open gate that stays open. -/
def reports (kind : Kind) : GateCall → List Event
  | .emit event => [event]
  | .transition state => [.state kind state]
  | .settle .. => []

/-- The answer to a call, if it has one. -/
def answer (settles : Bool) : GateCall → Option Bool
  | .settle .. => some settles
  | _ => none

variable {g : Gate} {call : GateCall} {state : State} {extra : Option Event}

/-! ## One call -/

/-- A settled gate stays as it is. -/
theorem perform_of_settled (h : g.isSettled = true) (call : GateCall) :
    call.perform g = (call.answer false, g) := by
  have hsettle : ∀ state extra, g.settle state extra = (false, g) := fun _ _ => if_pos h
  cases call with
  | emit event => rw [perform, Gate.emit, if_pos h, answer]; exact nofun
  | transition state =>
    have htransition : g.transition state = g := by
      rw [Gate.transition, hsettle]
      split_ifs <;> rfl
    rw [perform, htransition, answer]
    exact nofun
  | settle state extra => rw [perform, hsettle, answer]

/-- An open gate that is not settled lets through what a call reports. -/
theorem perform_of_unsettled (h : g.isSettled = false) (hcall : call.settlement? = none) :
    call.perform g = (none, { g with
      state := call.moved?.getD g.state
      passed := g.passed ++ call.reports g.kind }) := by
  cases call with
  | emit event => rw [perform, Gate.emit_of_unsettled h]; rfl
  | transition state =>
    have hstate : state.isTerminal = false := by simpa [settlement?] using hcall
    rw [perform, Gate.transition_of_unsettled h hstate]
    rfl
  | settle state extra => cases hcall

/-- An open gate is settled by a call that settles. -/
theorem perform_settling (h : g.isSettled = false)
    (hcall : call.settlement? = some (state, extra)) :
    call.perform g = (call.answer true, { g with
      state := state
      isSettled := true
      passed := g.passed ++ .state g.kind state :: extra.toList }) := by
  cases call with
  | emit event => cases hcall
  | transition reached =>
    obtain ⟨hterminal, heq⟩ : reached.isTerminal = true ∧ (reached, none) = (state, extra) := by
      simpa [settlement?] using hcall
    cases heq
    rw [perform, Gate.transition, if_pos hterminal, Gate.settle_of_unsettled h]
    rfl
  | settle reached event =>
    cases hcall
    have hanswer : (g.settle state extra).1 = true := by
      rw [Gate.settle, if_neg (by simp [h])]
    rw [perform, hanswer, Gate.settle_of_unsettled h]
    rfl

end GateCall

/-! ## Many calls -/

namespace Gate

/-- Carry out calls one after the other, and gather their answers. -/
def performAll (g : Gate) : List GateCall → List (Option Bool) × Gate
  | [] => ([], g)
  | call :: calls =>
    let (answer, g) := call.perform g
    let (answers, g) := g.performAll calls
    (answer :: answers, g)

variable {g : Gate} {call : GateCall} {calls before after : List GateCall}

theorem performAll_cons (g : Gate) (call : GateCall) (calls : List GateCall) :
    g.performAll (call :: calls) =
      ((call.perform g).1 :: ((call.perform g).2.performAll calls).1,
        ((call.perform g).2.performAll calls).2) :=
  rfl

theorem performAll_append (g : Gate) (calls more : List GateCall) :
    g.performAll (calls ++ more) =
      ((g.performAll calls).1 ++ ((g.performAll calls).2.performAll more).1,
        ((g.performAll calls).2.performAll more).2) := by
  induction calls generalizing g with
  | nil => rfl
  | cons call calls ih => rw [List.cons_append, performAll_cons, ih, performAll_cons]; rfl

theorem performAll_of_settled (h : g.isSettled = true) (calls : List GateCall) :
    g.performAll calls = (calls.map (GateCall.answer false), g) := by
  induction calls with
  | nil => rfl
  | cons call calls ih => rw [performAll_cons, GateCall.perform_of_settled h, ih]; rfl

theorem performAll_of_unsettled (h : g.isSettled = false)
    (hcalls : ∀ call ∈ calls, call.settlement? = none) :
    g.performAll calls = (calls.map fun _ => none, { g with
      state := (calls.filterMap GateCall.moved?).getLast?.getD g.state
      passed := g.passed ++ calls.flatMap (GateCall.reports g.kind) }) := by
  induction calls generalizing g with
  | nil => rw [List.flatMap_nil, List.append_nil]; rfl
  | cons call calls ih =>
    obtain ⟨hcall, hrest⟩ := List.forall_mem_cons.1 hcalls
    rw [performAll_cons, GateCall.perform_of_unsettled h hcall, ih (by exact h) hrest]
    dsimp only
    rw [List.flatMap_cons, List.append_assoc, List.map_cons]
    -- the last move counts, and that of this call only where none comes after it
    cases hmoved : call.moved? with
    | none => rw [List.filterMap_cons_none hmoved, Option.getD_none]
    | some state =>
      rw [List.filterMap_cons_some hmoved, List.getLast?_cons, Option.getD_some, Option.getD_some]

/-- None of the calls has settled the gate: all that they report has passed, and it is in the state
    to which it was moved last. -/
structure StillOpen (kind : Kind) (calls : List GateCall) (answers : List (Option Bool))
    (g : Gate) : Prop where
  unsettled : g.isSettled = false
  reached : g.state = (calls.filterMap GateCall.moved?).getLast?.getD .idle
  passed : g.passed = calls.flatMap (GateCall.reports kind)
  answers : answers = calls.map fun _ => none

/-- A call after others has settled the gate: what those have reported has passed, then the state in
    which it has settled and at most one event more. Calls after it are told that they settle
    nothing, and whatever is called from now on changes nothing. -/
structure SettledBy (kind : Kind) (before : List GateCall) (call : GateCall) (after : List GateCall)
    (state : State) (extra : Option Event) (answers : List (Option Bool)) (g : Gate) : Prop where
  settled : g.isSettled = true
  reached : g.state = state
  passed : g.passed = before.flatMap (GateCall.reports kind) ++ .state kind state :: extra.toList
  answers : answers = before.map (fun _ => none) ++ call.answer true ::
    after.map (GateCall.answer false)
  stays : ∀ more, (g.performAll more).2 = g

theorem stillOpen_performAll (kind : Kind) (hcalls : ∀ call ∈ calls, call.settlement? = none) :
    StillOpen kind calls ((start kind).performAll calls).1 ((start kind).performAll calls).2 := by
  have hopen : (start kind).isSettled = false := rfl
  rw [performAll_of_unsettled hopen hcalls]
  exact ⟨rfl, rfl, List.nil_append _, rfl⟩

theorem settledBy_performAll (kind : Kind) (hbefore : ∀ early ∈ before, early.settlement? = none)
    {state : State} {extra : Option Event} (hcall : call.settlement? = some (state, extra))
    (after : List GateCall) :
    SettledBy kind before call after state extra
      ((start kind).performAll (before ++ call :: after)).1
      ((start kind).performAll (before ++ call :: after)).2 := by
  have hopen : (start kind).isSettled = false := rfl
  rw [performAll_append, performAll_cons, performAll_of_unsettled hopen hbefore,
    GateCall.perform_settling (by exact hopen) hcall, performAll_of_settled rfl]
  exact ⟨rfl, rfl, rfl, rfl, fun more => by rw [performAll_of_settled rfl]⟩

/-- Whatever is called on a new gate, either no call settles it and all are heard, or the first that
    settles does so and is heard last. -/
theorem settles_once (kind : Kind) (calls : List GateCall) :
    (∀ call ∈ calls, call.settlement? = none) ∧
        StillOpen kind calls ((start kind).performAll calls).1 ((start kind).performAll calls).2 ∨
      ∃ before call after state extra, calls = before ++ call :: after ∧
        (∀ early ∈ before, early.settlement? = none) ∧
        call.settlement? = some (state, extra) ∧
        SettledBy kind before call after state extra ((start kind).performAll calls).1
          ((start kind).performAll calls).2 := by
  cases hfirst : calls.find? (·.settlement?.isSome) with
  | none =>
    have hcalls : ∀ call ∈ calls, call.settlement? = none := by
      simpa using List.find?_eq_none.1 hfirst
    exact Or.inl ⟨hcalls, stillOpen_performAll kind hcalls⟩
  | some call =>
    obtain ⟨hsome, before, after, rfl, hnone⟩ := List.find?_eq_some_iff_append.1 hfirst
    obtain ⟨⟨state, extra⟩, hcall⟩ := Option.isSome_iff_exists.1 hsome
    have hbefore : ∀ early ∈ before, early.settlement? = none := by simpa using hnone
    exact Or.inr ⟨before, call, after, state, extra, rfl, hbefore, hcall,
      settledBy_performAll kind hbefore hcall after⟩

/-- A session that has timed out: what a stage calls after that is dropped. -/
example : (start .run).performAll [.transition .compiling, .settle .timedOut (some (.timedOut 1)),
      .transition .linking, .emit (.frameCreated 1), .settle .ready none] =
    ([none, some true, none, none, some false],
      ⟨.run, .timedOut, true, [.state .run .compiling, .state .run .timedOut, .timedOut 1]⟩) := by
  decide

end Gate

end Workbench.Session
