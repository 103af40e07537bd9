import Mathlib.Data.List.Infix
import Workbench.Proofs.Steps

set_option autoImplicit false

/-! # What a session reports

A session reports a state before each tool that it runs, goes on only after a tool that succeeded in
silence, asks for a frame at most once, and settles once. The law is an invariant of the record that
a draft keeps: the gate, the runs of tools and the requests for frames. Each stage adds one state
and one run to it; where a stage is interrupted, the record is that of a session that may have begun
the stage. -/

namespace Workbench.Session

variable {World : Type}

/-! ## The record of a session -/

/-- The state in which a session runs a tool. -/
def stageOf : Tool → State
  | .format => .formatting
  | .compile => .compiling
  | .link => .linking

/-- The tools that a session of a kind may run, in order. -/
def Kind.tools : Kind → List Tool
  | .format => [.format]
  | .run => Tool.all

/-- Whether an event reports a state. -/
def Event.isState : Event → Bool
  | .state .. => true
  | _ => false

/-- Whether an event is one of those that stages report, apart from the creation of a frame. -/
def Event.isRoutine : Event → Bool
  | .state .. | .formatted .. | .output .. | .diagnostics .. => true
  | _ => false

/-- The tool has succeeded, and has left nothing but blanks on its standard error. -/
def ToolCall.Passed (call : ToolCall) : Prop :=
  (∃ left, call.run = .exited 0 left) ∧
    Text.trim (Text.ofUtf8Lossy call.after.stderr).toList = []

/-- What is reported of a request for a frame. -/
def FrameCall.report? (frame : FrameCall) : Option Event :=
  match frame.result with
  | .ok _ => some (.frameCreated frame.module.size)
  | .error _ => none

/-- The part of a draft that keeps record. -/
structure Log where
  gate : Gate
  calls : List ToolCall
  frames : List FrameCall

/-- The record in a draft. -/
def Draft.log (d : Draft World) : Log := ⟨d.gate, d.calls, d.frames⟩

/-- Every tool so far has passed. -/
def Log.Clear (log : Log) : Prop := ∀ call ∈ log.calls, call.Passed

/-- A session is under way: it has reported these states and run these tools, all of which but the
    last have passed, and has not asked for a frame. -/
structure Underway (kind : Kind) (tools : List Tool) (states : List State) (log : Log) : Prop where
  ofKind : log.gate.kind = kind
  unsettled : log.gate.isSettled = false
  routine : ∀ event ∈ log.gate.passed, event.isRoutine = true
  reported : log.gate.passed.filter Event.isState = states.map (Event.state kind)
  called : log.calls.map ToolCall.tool = tools
  passed : ∀ call ∈ log.calls.dropLast, call.Passed
  unframed : log.frames = []

/-- A session has come to where it goes no further. -/
structure Halted (kind : Kind) (log : Log) : Prop where
  ofKind : log.gate.kind = kind
  unsettled : log.gate.isSettled = false
  trace : ∃ routine states, log.gate.passed = routine ++ log.frames.filterMap FrameCall.report? ∧
    (∀ event ∈ routine, event.isRoutine = true) ∧
    routine.filter Event.isState = states.map (Event.state kind) ∧
    states <+: kind.tools.map stageOf
  called : log.calls.map ToolCall.tool <+: kind.tools
  passed : ∀ call ∈ log.calls.dropLast, call.Passed
  framed : log.frames = [] ∨
    log.calls.map ToolCall.tool = Tool.all ∧ log.Clear ∧ ∃ frame, log.frames = [frame]

/-! ## What passes an open gate -/

namespace Gate

variable {g : Gate}

theorem emit_of_unsettled (h : g.isSettled = false) (event : Event) :
    g.emit event = { g with passed := g.passed ++ [event] } := by
  unfold emit
  exact if_neg (by simp [h])

theorem foldl_emit_of_unsettled (h : g.isSettled = false) (events : List Event) :
    events.foldl Gate.emit g = { g with passed := g.passed ++ events } := by
  induction events generalizing g with
  | nil => rw [List.append_nil]; rfl
  | cons event events ih =>
    have hopen : ({ g with passed := g.passed ++ [event] } : Gate).isSettled = false := h
    rw [List.foldl_cons, emit_of_unsettled h, ih hopen, List.append_assoc, List.singleton_append]

theorem transition_of_unsettled (h : g.isSettled = false) {state : State}
    (hstate : state.isTerminal = false) : g.transition state =
      { g with state := state, passed := g.passed ++ [.state g.kind state] } := by
  unfold transition
  rw [if_neg (by simp [hstate]), if_neg (by simp [h])]

theorem settle_of_unsettled (h : g.isSettled = false) (state : State) (extra : Option Event) :
    (g.settle state extra).2 = { g with
      state := state, isSettled := true
      passed := g.passed ++ .state g.kind state :: extra.toList } := by
  unfold settle
  rw [if_neg (by simp [h])]

end Gate

namespace Underway

variable {kind : Kind} {tools : List Tool} {states : List State} {log : Log}

theorem halted (h : Underway kind tools states log) (htools : tools <+: kind.tools)
    (hstates : states <+: kind.tools.map stageOf) : Halted kind log where
  ofKind := h.ofKind
  unsettled := h.unsettled
  trace := ⟨log.gate.passed, states, by rw [h.unframed]; exact (List.append_nil _).symm,
    h.routine, h.reported, hstates⟩
  called := h.called ▸ htools
  passed := h.passed
  framed := Or.inl h.unframed

/-- Anything but a state may be reported at any time. -/
theorem emit (h : Underway kind tools states log) {event : Event}
    (hroutine : event.isRoutine = true) (hstate : event.isState = false) :
    Underway kind tools states { log with gate := log.gate.emit event } := by
  rw [Gate.emit_of_unsettled h.unsettled]
  refine ⟨h.ofKind, h.unsettled, fun other hother => ?_, ?_, h.called, h.passed, h.unframed⟩
  · rcases List.mem_append.1 hother with hother | hother
    · exact h.routine other hother
    · rw [List.mem_singleton.1 hother, hroutine]
  · show (log.gate.passed ++ [event]).filter Event.isState = _
    rw [List.filter_append, h.reported, List.filter_cons_of_neg (by simp [hstate])]
    exact List.append_nil _

/-- A tool may have its output and diagnostics reported. -/
theorem spoken (h : Underway kind tools states log) {tool : Tool} {gate : Gate}
    (hgate : Spoken tool log.gate gate) : Underway kind tools states { log with gate := gate } := by
  obtain ⟨events, hevents, rfl⟩ := hgate
  induction events generalizing log with
  | nil => exact h
  | cons event events ih =>
    have hfirst : Underway kind tools states { log with gate := log.gate.emit event } := by
      rcases hevents event List.mem_cons_self with ⟨out, err, rfl⟩ | ⟨found, rfl⟩
      · exact h.emit rfl rfl
      · exact h.emit rfl rfl
    exact ih hfirst fun other hother => hevents other (List.mem_cons_of_mem event hother)

/-- A state in which a tool is run is added to those that were reported. -/
theorem moveTo (h : Underway kind tools states log) (tool : Tool) :
    Underway kind tools (states ++ [stageOf tool])
      { log with gate := log.gate.transition (stageOf tool) } := by
  rw [Gate.transition_of_unsettled h.unsettled (by cases tool <;> rfl), h.ofKind]
  refine ⟨rfl, h.unsettled, fun other hother => ?_, ?_, h.called, h.passed, h.unframed⟩
  · rcases List.mem_append.1 hother with hother | hother
    · exact h.routine other hother
    · rw [List.mem_singleton.1 hother]
      rfl
  · show (log.gate.passed ++ [Event.state kind (stageOf tool)]).filter Event.isState = _
    rw [List.filter_append, h.reported, List.map_append]
    rfl

/-- A tool may be run after tools that have all passed. -/
theorem call (h : Underway kind tools states log) (hclear : log.Clear) (call : ToolCall) :
    Underway kind (tools ++ [call.tool]) states { log with calls := log.calls ++ [call] } := by
  refine ⟨h.ofKind, h.unsettled, h.routine, h.reported, ?_, ?_, h.unframed⟩
  · show (log.calls ++ [call]).map ToolCall.tool = _
    rw [List.map_append, h.called]
    rfl
  · show ∀ other ∈ (log.calls ++ [call]).dropLast, other.Passed
    rw [List.dropLast_concat]
    exact hclear

end Underway

/-! ## Stages -/

/-- A stage has no failure exactly if its tool has passed. -/
theorem verdict_eq_none_iff {path : String} {tool : Tool} {stderr : String} {status : Int} :
    verdict path tool stderr status = none ↔ status = 0 ∧ Text.trim stderr.toList = [] := by
  unfold verdict isSuccess
  by_cases hquiet : Text.trim stderr.toList = [] <;> by_cases hstatus : status = 0 <;>
    simp [hquiet, hstatus]

/-- A session that is under way and has seen no failure. -/
def Going (kind : Kind) (tools : List Tool) (states : List State) (log : Log) : Prop :=
  Underway kind tools states log ∧ log.Clear

/-- A stage is over: the session goes on unless there was a failure. -/
def Staged {α : Type} (kind : Kind) (tools : List Tool) (states : List State)
    (failure : Option α) (log : Log) : Prop :=
  Underway kind tools states log ∧ (failure = none → log.Clear)

theorem Staged.going {α : Type} {kind : Kind} {tools : List Tool} {states : List State} {log : Log}
    (h : Staged kind tools states (none : Option α) log) : Going kind tools states log :=
  ⟨h.1, h.2 rfl⟩

section Stages

variable {kind : Kind} {tools : List Tool} {states : List State}

theorem moveTo_going (tool : Tool) {stop : Draft World → Prop} :
    Ensures (fun d => Going kind tools states d.log) (moveTo (stageOf tool))
      (fun _ d => Going kind tools (states ++ [stageOf tool]) d.log) stop :=
  .moveTo fun _ hd => ⟨hd.1.moveTo tool, hd.2⟩

/-- What keeps the record keeps a session going. -/
theorem modify_going {f : Draft World → Draft World} (hf : ∀ d, (f d).log = d.log)
    {stop : Draft World → Prop} :
    Ensures (fun d => Going kind tools states d.log) (modify f)
      (fun _ d => Going kind tools states d.log) stop :=
  .modify fun d hd => (hf d).symm ▸ hd

/-- A refused change of the file system ends a session where it is. -/
theorem change_going {act : FileSystem → Except FileSystem.Error Unit × FileSystem}
    (htools : tools <+: kind.tools) (hstates : states <+: kind.tools.map stageOf) :
    Ensures (fun d : Draft World => Going kind tools states d.log) (change act)
      (fun _ d => Going kind tools states d.log) (fun d => Halted kind d.log) :=
  .change (fun _ _ hd _ => hd) fun _ _ _ hd _ => hd.1.halted htools hstates

theorem readFile_going (w : Workshop World) (path : String) {stop : Draft World → Prop} :
    Ensures (fun d => Going kind tools states d.log) (readFile w path)
      (fun _ d => Going kind tools states d.log) stop :=
  .readFile fun _ _ _ _ hd _ => hd

/-- A tool that passes lets a session go on; one that does not end ends it. -/
theorem invoke_staged (w : Workshop World) (tool : Tool) (args : List String)
    (htools : tools ++ [tool] <+: kind.tools) (hstates : states <+: kind.tools.map stageOf) :
    Ensures (fun d => Going kind tools states d.log) (invoke w tool args)
      (fun failure d => Staged kind (tools ++ [tool]) states failure d.log)
      (fun d => Halted kind d.log) := by
  refine Ensures.invoke (fun d status left fs world gate stdout stderr hd hrun hgate => ?_)
    fun d run fs world hd hrun => ?_
  · refine ⟨(hd.1.call hd.2 ⟨tool, args, d.fs.clearOutput, .exited status left, fs⟩).spoken hgate,
      fun hnone call hcall => ?_⟩
    -- without a failure the new run has passed, as the earlier ones had
    obtain ⟨rfl, hquiet⟩ := verdict_eq_none_iff.1 hnone
    rcases List.mem_append.1 hcall with hcall | hcall
    · exact hd.2 call hcall
    · rw [List.mem_singleton.1 hcall]
      exact ⟨⟨left, rfl⟩, hquiet⟩
  · exact (hd.1.call hd.2 ⟨tool, args, d.fs.clearOutput, run, fs⟩).halted htools hstates

end Stages

theorem resetWorkspace_going {kind : Kind} (c : Config) :
    Ensures (fun d : Draft World => Going kind [] [] d.log) (resetWorkspace c)
      (fun _ d => Going kind [] [] d.log) (fun d => Halted kind d.log) := by
  have hchange : ∀ act, Ensures (fun d : Draft World => Going kind [] [] d.log) (change act)
      (fun _ d => Going kind [] [] d.log) (fun d => Halted kind d.log) :=
    fun _ => change_going List.nil_prefix List.nil_prefix
  unfold resetWorkspace removeStale
  exact Ensures.bind (modify_going fun _ => by rfl) fun _ => (hchange _).bind fun _ =>
    (hchange _).bind fun _ => hchange _

theorem formatStage_staged {kind : Kind} (w : Workshop World) :
    Ensures (fun d => Going kind [] [] d.log) (formatStage w)
      (fun failure d => Staged kind [.format] [.formatting] failure d.log)
      (fun d => Halted kind d.log) := by
  have htools : [Tool.format] <+: kind.tools := by cases kind <;> decide
  have hstates : [State.formatting] <+: kind.tools.map stageOf := by cases kind <;> decide
  unfold formatStage
  refine (moveTo_going .format).bind fun _ => .bind_get fun d₀ => ?_
  refine Ensures.bind ((change_going List.nil_prefix hstates).weaken fun _ hd => hd.2) fun _ => ?_
  refine (invoke_staged w .format _ htools hstates).bind fun failure => ?_
  cases failure with
  | some f => exact .pure fun d hd => ⟨hd.1, by simp⟩
  | none =>
    refine Ensures.bind ((readFile_going w _).weaken fun _ hd => hd.going) fun result => ?_
    cases result with
    | error e => exact .abort fun d hd => hd.1.halted htools hstates
    | ok bytes =>
      cases htext : Text.ofUtf8? bytes with
      | none =>
        simp only [htext]
        exact .pure fun d hd => ⟨hd.1, by simp⟩
      | some text =>
        simp only [htext]
        have hemit : Ensures (fun d : Draft World => Going kind [.format] [.formatting] d.log)
            (emit (.formatted text))
            (fun _ d => Staged kind [.format] [.formatting] (none : Option Failure) d.log)
            (fun d => Halted kind d.log) :=
          .emit fun d hd => ⟨hd.1.emit rfl rfl, fun _ => hd.2⟩
        exact Ensures.bind (modify_going fun _ => by rfl) fun _ => hemit.bind fun _ =>
          .pure fun d hd => hd

theorem compileStage_staged (w : Workshop World) (imports : List String) (m : Manifest) :
    Ensures (fun d => Going .run [.format] [.formatting] d.log) (compileStage w imports m)
      (fun failure d => Staged .run [.format, .compile] [.formatting, .compiling] failure d.log)
      (fun d => Halted .run d.log) := by
  unfold compileStage
  refine (moveTo_going .compile).bind fun _ => ?_
  refine (change_going (by decide) (by decide)).bind fun _ => ?_
  refine (invoke_staged w .compile _ (by decide) (by decide)).bind fun failure => ?_
  cases failure with
  | some f => exact .pure fun d hd => ⟨hd.1, by simp⟩
  | none =>
    refine .bind_get fun d₀ => ?_
    split
    · exact .pure fun d hd => hd.2
    · exact .pure fun d hd => ⟨hd.2.1, by simp⟩

theorem linkStage_staged (w : Workshop World) (imports : List String) (m : Manifest) :
    Ensures (fun d => Going .run [.format, .compile] [.formatting, .compiling] d.log)
      (linkStage w imports m)
      (fun result d => Underway .run Tool.all (Tool.all.map stageOf) d.log ∧
        ∀ module, result = .ok module → d.log.Clear)
      (fun d => Halted .run d.log) := by
  unfold linkStage
  refine (moveTo_going .link).bind fun _ => ?_
  refine (change_going (by decide) (by decide)).bind fun _ => ?_
  refine (invoke_staged w .link _ (by decide) (by decide)).bind fun failure => ?_
  cases failure with
  | some f => exact .pure fun d hd => ⟨hd.1, by simp⟩
  | none =>
    refine Ensures.bind ((readFile_going w _).weaken fun _ hd => hd.going) fun result => ?_
    split
    · exact .pure fun d hd => ⟨hd.1, fun _ _ => hd.2⟩
    · exact .pure fun d hd => ⟨hd.1, by simp⟩
    · exact .abort fun d hd => hd.1.halted (by decide) (by decide)

/-- Once a frame was asked for, a session is at its end. -/
theorem Underway.framed {log : Log} (h : Underway .run Tool.all (Tool.all.map stageOf) log)
    (hclear : log.Clear) (frame : FrameCall) :
    Halted .run ⟨frame.report?.elim log.gate log.gate.emit, log.calls, log.frames ++ [frame]⟩ := by
  have hframes : log.frames ++ [frame] = [frame] := by rw [h.unframed, List.nil_append]
  have hgate : frame.report?.elim log.gate log.gate.emit =
      { log.gate with passed := log.gate.passed ++ frame.report?.toList } := by
    cases frame.report? with
    | none => rw [Option.elim_none, Option.toList_none, List.append_nil]
    | some event => exact Gate.emit_of_unsettled h.unsettled event
  rw [hframes, hgate]
  refine ⟨h.ofKind, h.unsettled, ⟨log.gate.passed, _, ?_, h.routine, h.reported, List.prefix_rfl⟩,
    h.called ▸ List.prefix_rfl, h.passed, Or.inr ⟨h.called, hclear, frame, rfl⟩⟩
  cases hreport : frame.report? with
  | none => simp [hreport]
  | some event => simp [hreport]

theorem frameStage_halted (w : Workshop World) (module : ByteArray) :
    Ensures (fun d => Going .run Tool.all (Tool.all.map stageOf) d.log) (frameStage w module)
      (fun _ d => Halted .run d.log) (fun d => Halted .run d.log) :=
  .frameStage (fun _ signals _ _ hd _ _ _ => hd.1.framed hd.2 ⟨module, .ok signals⟩)
    (fun _ signals _ _ hd _ => hd.1.framed hd.2 ⟨module, .ok signals⟩)
    fun _ e _ hd _ => hd.1.framed hd.2 ⟨module, .error e⟩

/-- What all stages leave: a record that goes no further, and an outcome other than a timeout. -/
theorem stages_halted {kind : Kind} (w : Workshop World) (manifest : Option Manifest) :
    Ensures (fun d => Going kind [] [] d.log) (stages w kind manifest)
      (fun outcome d => Halted kind d.log ∧ outcome ≠ .timedOut) (fun d => Halted kind d.log) := by
  unfold stages
  refine (resetWorkspace_going w.config).bind fun _ => ?_
  refine (formatStage_staged w).bind fun failure => ?_
  have hformat : ∀ {log : Log}, Underway kind [.format] [.formatting] log → Halted kind log :=
    fun h => h.halted (by cases kind <;> decide) (by cases kind <;> decide)
  cases failure with
  | some f => exact .pure fun d hd => ⟨hformat hd.1, by simp⟩
  | none =>
    dsimp only
    split
    · exact .pure fun d hd => ⟨hformat hd.1, by simp⟩
    next m hm =>
    -- past the formatter there is only a session that runs
    obtain rfl : kind = .run := of_decide_eq_true (Option.filter_eq_some_iff.1 hm).2
    refine .bind_get fun d₀ => ?_
    refine Ensures.bind ((compileStage_staged w _ m).weaken fun _ hd => hd.2.going)
      fun failure => ?_
    cases failure with
    | some f => exact .pure fun d hd => ⟨hd.1.halted (by decide) (by decide), by simp⟩
    | none =>
      refine Ensures.bind ((linkStage_staged w _ m).weaken fun _ hd => hd.going) fun result => ?_
      cases result with
      | error f => exact .pure fun d hd => ⟨hd.1.halted (by decide) (by decide), by simp⟩
      | ok module =>
        refine Ensures.bind ((frameStage_halted w module).weaken fun _ hd => ⟨hd.1, hd.2 _ rfl⟩)
          fun _ => .pure fun d hd => ⟨hd, by simp⟩

/-- However the stages end, the record goes no further. -/
theorem halted_of_stages {kind : Kind} (w : Workshop World) (manifest : Option Manifest)
    {d : Draft World} (h : Going kind [] [] d.log) :
    Halted kind (Step.on (stages w kind manifest) d).2.log := by
  have hstages := (stages_halted w manifest).kept d h
  rcases hrun : Step.on (stages w kind manifest) d with ⟨i | outcome, d'⟩ <;> rw [hrun] at hstages
  · exact hstages
  · exact hstages.1

/-! ## The law -/

/-- How a session settles and what is reported after it: an error is reported after a failure, a
    timeout after the state for it, and nothing else. -/
def Settles (seconds : Nat) (result : Except Error Session) (settled : State)
    (closing : List Event) : Prop :=
  match result with
  | .error cause => settled = .failed ∧ closing = [.environmentError cause.message]
  | .ok session => settled = session.state ∧ settled ∈ [.idle, .ready, .failed, .timedOut] ∧
      closing = match session.outcome with
        | .timedOut => [.timedOut seconds]
        | _ => []

/-- What a settled session has reported, run and asked for. -/
structure TraceLaw (kind : Kind) (seconds : Nat) (result : Except Error Session) (log : Log) :
    Prop where
  /-- The gate has let pass what the stages reported, with the states of a first part of the stages
      among it; the creation of a frame, if there was one; and the settlement. -/
  trace : ∃ routine states settled closing,
    log.gate.passed = routine ++ log.frames.filterMap FrameCall.report? ++
      .state kind settled :: closing ∧
    (∀ event ∈ routine, event.isRoutine = true) ∧
    routine.filter Event.isState = states.map (Event.state kind) ∧
    states <+: kind.tools.map stageOf ∧
    Settles seconds result settled closing
  /-- Nothing passes any more. -/
  closed : ∀ event, log.gate.emit event = log.gate
  /-- The tools were run in order, each once at most. -/
  called : log.calls.map ToolCall.tool <+: kind.tools
  /-- Every tool after which another was run has passed. -/
  passed : ∀ call ∈ log.calls.dropLast, call.Passed
  /-- There was one frame at most, and only after all three tools had passed. -/
  framed : log.frames = [] ∨
    log.calls.map ToolCall.tool = Tool.all ∧ log.Clear ∧ ∃ frame, log.frames = [frame]

/-- Settling what has halted obeys the law. -/
theorem Halted.settle {kind : Kind} {log : Log} (h : Halted kind log) {seconds : Nat}
    {result : Except Error Session} {settled : State} {extra : Option Event}
    (hsettles : Settles seconds result settled extra.toList) :
    TraceLaw kind seconds result { log with gate := (log.gate.settle settled extra).2 } := by
  obtain ⟨routine, states, hpassed, hroutine, hreported, hstates⟩ := h.trace
  rw [Gate.settle_of_unsettled h.unsettled]
  refine ⟨⟨routine, states, settled, extra.toList, ?_, hroutine, hreported, hstates, hsettles⟩,
    fun event => if_pos rfl, h.called, h.passed, h.framed⟩
  show log.gate.passed ++ Event.state log.gate.kind settled :: extra.toList = _
  rw [hpassed, h.ofKind]

theorem going_start (kind : Kind) (source : String) (patience : Nat) (fs : FileSystem)
    (world : World) : Going kind [] [] (Draft.start kind source patience fs world).log :=
  ⟨⟨rfl, rfl, by simp [Draft.log, Draft.start, Gate.start], rfl, rfl,
    by simp [Draft.log, Draft.start], rfl⟩, by simp [Log.Clear, Draft.log, Draft.start]⟩

/-- Every session that is held obeys the law, whatever the tools, the assets and the frames do. -/
theorem conduct_obeys_traceLaw (w : Workshop World) (kind : Kind) (manifest : Option Manifest)
    (source : String) (fs : FileSystem) (world : World) :
    TraceLaw kind w.config.timeoutSeconds (conduct w kind manifest source fs world).1
      (conduct w kind manifest source fs world).2.log := by
  have hstages := (stages_halted w manifest).kept _
    (going_start kind source (1000 * w.config.timeoutSeconds) fs world)
  rcases conduct_cases w kind manifest source fs world with
    ⟨outcome, d, hon, hconduct⟩ | ⟨cause, d, hon, hconduct⟩ | ⟨d, hon, hconduct⟩
  · rw [hon] at hstages
    rw [hconduct]
    refine hstages.1.settle ⟨rfl, ?_, ?_⟩
    · cases outcome <;> simp [Outcome.state]
    · cases outcome with
      | timedOut => exact absurd rfl hstages.2
      | formatted => rfl
      | ready module => rfl
      | failed failure => rfl
  · rw [hon] at hstages
    rw [hconduct]
    exact Halted.settle hstages ⟨rfl, rfl⟩
  · rw [hon] at hstages
    rw [hconduct]
    exact Halted.settle hstages ⟨rfl, by decide, rfl⟩

/-- So does one whose time is used up while it reads a file. -/
theorem conductLate_obeys_traceLaw {w : Workshop World} {leave : World → String → Option World}
    {kind : Kind} {manifest : Option Manifest} {source : String} {fs : FileSystem} {world : World}
    {late : Except Error Session × Draft World}
    (h : conductLate w leave kind manifest source fs world = some late) :
    TraceLaw kind w.config.timeoutSeconds late.1 late.2.log := by
  obtain ⟨d, hleft, rfl⟩ := Option.map_eq_some_iff.1 h
  have hhalted := halted_of_stages (w.leaving leave) manifest
    (going_start kind source (1000 * w.config.timeoutSeconds) fs (world, false))
  unfold untilReading at hleft
  dsimp only at hleft
  split_ifs at hleft
  cases hleft
  exact Halted.settle hhalted ⟨rfl, by decide, rfl⟩

/-! ## Calls -/

theorem deadline?_eq_none_iff {c : Config} {started : Nat} :
    deadline? c started = none ↔ clockRange ≤ started + c.timeoutSeconds := by
  unfold deadline?
  dsimp only
  split_ifs with h
  · exact iff_of_false nofun (Nat.not_le.2 h)
  · exact iff_of_true rfl (Nat.le_of_not_lt h)

/-- A call comes to a session, unless the clock has no deadline for it. -/
theorem call_cases (w : Workshop World) (kind : Kind) (manifest : Option Manifest) (source : String)
    (started : Nat) (fs : FileSystem) (world : World) :
    clockRange ≤ started + w.config.timeoutSeconds ∧
        call w kind manifest source started fs world = none ∨
      started + w.config.timeoutSeconds < clockRange ∧
        call w kind manifest source started fs world =
          some (conduct w kind manifest source fs world) := by
  unfold call
  cases hdeadline : deadline? w.config started with
  | none => exact Or.inl ⟨deadline?_eq_none_iff.1 hdeadline, rfl⟩
  | some deadline =>
    refine Or.inr ⟨Nat.lt_of_not_le fun h => ?_, rfl⟩
    rw [deadline?_eq_none_iff.2 h] at hdeadline
    cases hdeadline

/-- Every call for a session obeys the law as long as the clock has a deadline for it, also where the
    session is late because of a file that it reads itself. Otherwise it is broken off before anything
    is reported, and settles in no state. -/
theorem call_obeys_traceLaw (w : Workshop World) (kind : Kind) (manifest : Option Manifest)
    (source : String) (started : Nat) (fs : FileSystem) (world : World) :
    clockRange ≤ started + w.config.timeoutSeconds ∧
        call w kind manifest source started fs world = none ∨
      started + w.config.timeoutSeconds < clockRange ∧ ∃ result d,
        call w kind manifest source started fs world = some (result, d) ∧
        TraceLaw kind w.config.timeoutSeconds result d.log ∧
        ∀ leave, ∀ late ∈ conductLate w leave kind manifest source fs world,
          TraceLaw kind w.config.timeoutSeconds late.1 late.2.log := by
  rcases call_cases w kind manifest source started fs world with
    hbroken | ⟨hdeadline, hheld⟩
  · exact Or.inl hbroken
  · exact Or.inr ⟨hdeadline, _, _, hheld, conduct_obeys_traceLaw w kind manifest source fs world,
      fun _ _ hlate => conductLate_obeys_traceLaw hlate⟩

/-- The longest timeout that can be set is accepted, but every call with it is broken off. -/
theorem call_broken_off : ∃ c, Config.default.set "timeout_secs" "18446744073709551615" = .ok c ∧
    ∀ {World : Type} (w : Workshop World) kind manifest source started fs world, w.config = c →
      call w kind manifest source started fs world = none := by
  refine ⟨{ Config.default with timeoutSeconds := 18446744073709551615 }, by decide +kernel, ?_⟩
  intro World w kind manifest source started fs world hconfig
  rcases call_cases w kind manifest source started fs world with ⟨-, hbroken⟩ | ⟨hdeadline, -⟩
  · exact hbroken
  · rw [hconfig, clockRange] at hdeadline
    exact absurd hdeadline (Nat.not_lt.2 (Nat.le_add_left_of_le (by decide)))

end Workbench.Session
