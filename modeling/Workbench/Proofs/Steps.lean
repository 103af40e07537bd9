import Workbench.Session.Build

set_option autoImplicit false

/-! # Steps of a session

What a step ensures: from every draft it may begin on it either yields a value and a draft that are
as promised, or is interrupted and leaves a draft that is as promised for that. There is one rule
for each way in which steps are put together, and one for each step that changes the draft. -/

namespace Workbench.Session

variable {World α β : Type}

/-- A step from one draft. -/
def Step.on (m : Step World α) (d : Draft World) : Except Interruption α × Draft World := m.run d

/-- A step keeps its promises: `post` for what it yields, `stop` where it is interrupted. -/
structure Ensures (pre : Draft World → Prop) (m : Step World α) (post : α → Draft World → Prop)
    (stop : Draft World → Prop) : Prop where
  kept : ∀ d, pre d →
    match Step.on m d with
    | (.ok a, d') => post a d'
    | (.error _, d') => stop d'

/-! ## Putting steps together -/

theorem Step.on_bind (m : Step World α) (f : α → Step World β) (d : Draft World) :
    Step.on (m >>= f) d =
      match Step.on m d with
      | (.ok a, d') => Step.on (f a) d'
      | (.error i, d') => (.error i, d') := by
  show (match Step.on m d with
    | (result, d') => ExceptT.bindCont f result d') = _
  rcases Step.on m d with ⟨_ | _, d'⟩ <;> rfl

@[simp] theorem Step.on_pure (a : α) (d : Draft World) : Step.on (pure a) d = (.ok a, d) := rfl

@[simp] theorem Step.on_throw (i : Interruption) (d : Draft World) :
    Step.on (throw i : Step World α) d = (.error i, d) := rfl

@[simp] theorem Step.on_abort (cause : Error) (d : Draft World) :
    Step.on (abort cause : Step World α) d = (.error (.error cause), d) := rfl

@[simp] theorem Step.on_get (d : Draft World) :
    Step.on (get : Step World (Draft World)) d = (.ok d, d) := rfl

@[simp] theorem Step.on_set (d d' : Draft World) :
    Step.on (set d' : Step World PUnit) d = (.ok ⟨⟩, d') := rfl

@[simp] theorem Step.on_modify (f : Draft World → Draft World) (d : Draft World) :
    Step.on (modify f : Step World PUnit) d = (.ok ⟨⟩, f d) := rfl

/-! ## What is told of a run -/

/-- Whether a tool has come to its end. -/
def ToolCall.ended (call : ToolCall) : Bool :=
  match call.run with
  | .exited .. => true
  | _ => false

theorem ToolCall.ended_iff {call : ToolCall} :
    call.ended = true ↔ ∃ status left, call.run = .exited status left := by
  unfold ended
  split
  · next status left hrun => exact iff_of_true rfl ⟨status, left, hrun⟩
  · next hcut =>
    refine iff_of_false Bool.false_ne_true ?_
    rintro ⟨status, left, hrun⟩
    exact hcut status left hrun

/-- A failure is that of the tool's stage, with the diagnostics about the source. -/
theorem verdict_eq_some {path : String} {tool : Tool} {stderr : String} {status : Int} {f : Failure}
    (h : verdict path tool stderr status = some f) :
    f.stage = tool ∧ f.diagnostics = (Diagnostic.parse stderr).filter (·.refersTo path) := by
  unfold verdict at h
  dsimp only at h
  split at h
  · cases h
  · cases h
    exact ⟨rfl, rfl⟩

namespace Event

/-- The report of what a tool has written, if it is anything. -/
def ofOutput (tool : Tool) (stdout stderr : String) : List Event :=
  if stdout.isEmpty && stderr.isEmpty then [] else [.output tool stdout stderr]

/-- The report of the diagnostics in a failure, if there are any. -/
def ofFailure (tool : Tool) : Option Failure → List Event
  | none => []
  | some f => if f.diagnostics.isEmpty then [] else [.diagnostics tool f.diagnostics]

end Event

/-- What a session reports of a run that came to its end: what the tool has written, and the
    diagnostics in it if the stage has failed. -/
def ToolCall.told (path : String) (call : ToolCall) : List Event :=
  match call.run with
  | .exited status _ =>
    let stderr := Text.ofUtf8Lossy call.after.stderr
    Event.ofOutput call.tool (Text.ofUtf8Lossy call.after.stdout) stderr ++
      Event.ofFailure call.tool (verdict path call.tool stderr status)
  | _ => []

/-- A draft after one more run that came to its end. -/
def Draft.heard (path : String) (d : Draft World) (call : ToolCall) (world : World) (left : Nat) :
    Draft World where
  fs := call.after.clearOutput
  world := world
  gate := (call.told path).foldl Gate.emit d.gate
  source := d.source
  stdout := d.stdout ++ Text.ofUtf8Lossy call.after.stdout
  stderr := d.stderr ++ Text.ofUtf8Lossy call.after.stderr
  patience := left
  calls := d.calls ++ [call]
  frames := d.frames

/-- Everything that is told of a run is its output or diagnostics in it. -/
theorem ToolCall.mem_told {path : String} {call : ToolCall} {event : Event}
    (h : event ∈ call.told path) : (∃ out err, event = .output call.tool out err) ∨
      ∃ found, event = .diagnostics call.tool found := by
  unfold ToolCall.told at h
  split at h
  · rcases List.mem_append.1 h with h | h
    · unfold Event.ofOutput at h
      split at h
      · cases h
      · exact Or.inl ⟨_, _, List.mem_singleton.1 h⟩
    · unfold Event.ofFailure at h
      split at h
      · cases h
      · split at h
        · cases h
        · exact Or.inr ⟨_, List.mem_singleton.1 h⟩
  · cases h

/-- A gate that a tool's output and diagnostics have passed. -/
def Spoken (tool : Tool) (gate gate' : Gate) : Prop :=
  ∃ events : List Event, (∀ event ∈ events, (∃ out err, event = .output tool out err) ∨
    ∃ found, event = .diagnostics tool found) ∧ gate' = events.foldl Gate.emit gate

namespace Ensures

variable {pre : Draft World → Prop} {m : Step World α} {post : α → Draft World → Prop}
  {stop : Draft World → Prop}

theorem bind {mid : α → Draft World → Prop} {f : α → Step World β}
    {post : β → Draft World → Prop} (hm : Ensures pre m mid stop)
    (hf : ∀ a, Ensures (mid a) (f a) post stop) : Ensures pre (m >>= f) post stop := by
  refine ⟨fun d hd => ?_⟩
  have hfirst := hm.kept d hd
  rw [Step.on_bind]
  rcases hon : Step.on m d with ⟨_ | a, d'⟩
  · rw [hon] at hfirst
    exact hfirst
  · rw [hon] at hfirst
    exact (hf a).kept d' hfirst

/-- A step may look at the draft before it goes on. -/
theorem bind_get {f : Draft World → Step World β} {post : β → Draft World → Prop}
    (hf : ∀ d₀, Ensures (fun d => d = d₀ ∧ pre d) (f d₀) post stop) :
    Ensures pre (get >>= f) post stop :=
  ⟨fun d hd => (hf d).kept d ⟨rfl, hd⟩⟩

/-- What is promised from more drafts is promised from fewer. -/
theorem weaken {pre' : Draft World → Prop} (h : Ensures pre m post stop)
    (hpre : ∀ d, pre' d → pre d) : Ensures pre' m post stop :=
  ⟨fun d hd => h.kept d (hpre d hd)⟩

/-- A promise of more is one of less. -/
theorem consequence {post' : α → Draft World → Prop} (h : Ensures pre m post stop)
    (hpost : ∀ a d, post a d → post' a d) : Ensures pre m post' stop := by
  refine ⟨fun d hd => ?_⟩
  have hkept := h.kept d hd
  rcases hon : Step.on m d with ⟨_ | a, d'⟩
  · rw [hon] at hkept
    exact hkept
  · rw [hon] at hkept
    exact hpost a d' hkept

/-- So it is where the step is interrupted. -/
theorem stopping {stop' : Draft World → Prop} (h : Ensures pre m post stop)
    (hstop : ∀ d, stop d → stop' d) : Ensures pre m post stop' := by
  refine ⟨fun d hd => ?_⟩
  have hkept := h.kept d hd
  rcases hon : Step.on m d with ⟨_ | a, d'⟩
  · rw [hon] at hkept
    exact hstop d' hkept
  · rw [hon] at hkept
    exact hkept

/-- What a step ensures may be shown from each draft by itself. -/
theorem of_each (h : ∀ d, pre d → Ensures (fun d' => d' = d) m post stop) :
    Ensures pre m post stop :=
  ⟨fun d hd => (h d hd).kept d rfl⟩

/-- What is ensured from many drafts is ensured from one of them. -/
theorem of_eq (h : Ensures pre m post stop) {d₀ : Draft World} (hd₀ : pre d₀) :
    Ensures (fun d => d = d₀) m post stop :=
  h.weaken fun _ hd => hd ▸ hd₀

theorem pure {a : α} (h : ∀ d, pre d → post a d) : Ensures pre (pure a) post stop := ⟨h⟩

theorem abort {cause : Error} (h : ∀ d, pre d → stop d) :
    Ensures pre (abort (α := α) cause) post stop := ⟨h⟩

theorem modify {f : Draft World → Draft World} {post : PUnit → Draft World → Prop}
    (h : ∀ d, pre d → post ⟨⟩ (f d)) : Ensures pre (modify f) post stop := ⟨h⟩

/-! ## Steps that change the draft -/

theorem change {act : FileSystem → Except FileSystem.Error Unit × FileSystem}
    {post : Unit → Draft World → Prop}
    (hok : ∀ d fs, pre d → act d.fs = (.ok (), fs) → post () { d with fs := fs })
    (hstop : ∀ d e fs, pre d → act d.fs = (.error e, fs) → stop { d with fs := fs }) :
    Ensures pre (change act) post stop := by
  refine ⟨fun d hd => ?_⟩
  rcases hact : act d.fs with ⟨e | _, fs⟩
  · simp only [Session.change, Step.on_bind, Step.on_get, hact, Step.on_set, Step.on_abort]
    exact hstop d e fs hd hact
  · simp only [Session.change, Step.on_bind, Step.on_get, hact, Step.on_set, Step.on_pure]
    exact hok d fs hd hact

theorem readFile {w : Workshop World} {path : String}
    {post : Except FileSystem.Error ByteArray → Draft World → Prop}
    (h : ∀ d result fs world, pre d → d.fs.readAll w.mount d.world path = (result, fs, world) →
      post result { d with fs := fs, world := world }) :
    Ensures pre (readFile w path) post stop := by
  refine ⟨fun d hd => ?_⟩
  rcases hread : d.fs.readAll w.mount d.world path with ⟨result, fs, world⟩
  simp only [Session.readFile, Step.on_bind, Step.on_get, hread, Step.on_set, Step.on_pure]
  exact h d result fs world hd hread

theorem emit {event : Event} {post : Unit → Draft World → Prop}
    (h : ∀ d, pre d → post () { d with gate := d.gate.emit event }) :
    Ensures pre (emit event) post stop := ⟨h⟩

theorem moveTo {state : State} {post : Unit → Draft World → Prop}
    (h : ∀ d, pre d → post () { d with gate := d.gate.transition state }) :
    Ensures pre (moveTo state) post stop := ⟨h⟩

/-- A tool that ends leaves its status and the time left; any other run interrupts the session. The
    run is recorded in each case. -/
theorem runTool {w : Workshop World} {tool : Tool} {args : List String}
    {post : Int → Draft World → Prop}
    (hok : ∀ d status left fs world, pre d →
      w.toolchain.run w.mount tool args d.patience d.fs d.world =
        (.exited status left, fs, world) →
      post status { d with
        fs := fs, world := world, patience := left
        calls := d.calls ++ [⟨tool, args, d.fs, .exited status left, fs⟩] })
    (hstop : ∀ d run fs world, pre d →
      w.toolchain.run w.mount tool args d.patience d.fs d.world = (run, fs, world) →
      (∀ status left, run ≠ .exited status left) →
      stop { d with
        fs := fs, world := world, calls := d.calls ++ [⟨tool, args, d.fs, run, fs⟩] }) :
    Ensures pre (runTool w tool args) post stop := by
  refine ⟨fun d hd => ?_⟩
  rcases hrun : w.toolchain.run w.mount tool args d.patience d.fs d.world with ⟨run, fs, world⟩
  cases run with
  | exited status left =>
    simp only [Session.runTool, Step.on_bind, Step.on_get, hrun, Step.on_set, Step.on_modify,
      Step.on_pure]
    exact hok d status left fs world hd hrun
  | failed cause =>
    simp only [Session.runTool, Step.on_bind, Step.on_get, hrun, Step.on_set, Step.on_abort]
    exact hstop d _ fs world hd hrun fun _ _ heq => by cases heq
  | running =>
    simp only [Session.runTool, Step.on_bind, Step.on_get, hrun, Step.on_set, Step.on_throw]
    exact hstop d _ fs world hd hrun fun _ _ heq => by cases heq

/-- What a tool has written is taken out of the buffers and added to the text of the session, and
    reported if it is anything. -/
theorem gatherOutput {tool : Tool} {post : String → Draft World → Prop}
    (h : ∀ d, pre d → post (Text.ofUtf8Lossy d.fs.stderr) { d with
      fs := d.fs.clearOutput
      gate := (Event.ofOutput tool (Text.ofUtf8Lossy d.fs.stdout)
        (Text.ofUtf8Lossy d.fs.stderr)).foldl Gate.emit d.gate
      stdout := d.stdout ++ Text.ofUtf8Lossy d.fs.stdout
      stderr := d.stderr ++ Text.ofUtf8Lossy d.fs.stderr }) :
    Ensures pre (gatherOutput tool) post stop := by
  refine ⟨fun d hd => ?_⟩
  have hpost := h d hd
  unfold Event.ofOutput at hpost
  by_cases hquiet :
      ((Text.ofUtf8Lossy d.fs.stdout).isEmpty && (Text.ofUtf8Lossy d.fs.stderr).isEmpty) = true
  · rw [if_pos hquiet] at hpost
    simp only [Session.gatherOutput, Step.on_bind, Step.on_get, Step.on_set,
      FileSystem.takeStdout, FileSystem.takeStderr, hquiet]
    exact hpost
  · rw [if_neg hquiet] at hpost
    simp only [Session.gatherOutput, Session.emit, Step.on_bind, Step.on_get, Step.on_set,
      Step.on_modify, Step.on_pure, FileSystem.takeStdout, FileSystem.takeStderr, hquiet,
      Bool.not_false, if_true]
    exact hpost

theorem reportFailure {tool : Tool} {failure : Option Failure} {post : Unit → Draft World → Prop}
    (h : ∀ d, pre d → post () { d with
      gate := (Event.ofFailure tool failure).foldl Gate.emit d.gate }) :
    Ensures pre (reportFailure tool failure) post stop := by
  cases failure with
  | none => exact pure h
  | some f =>
    simp only [Event.ofFailure] at h
    simp only [Session.reportFailure]
    split
    · next hnone =>
      simp only [hnone, if_true] at h
      exact pure h
    · next hsome =>
      simp only [hsome] at h
      exact emit h

/-- Running a tool to its end leaves the verdict on its status and its standard error, and adds to
    the draft what the session tells of the run. A run that does not come to its end is recorded, and
    nothing else. -/
theorem invoke_heard {w : Workshop World} {tool : Tool} {args : List String}
    {post : Option Failure → Draft World → Prop}
    (hok : ∀ d status left fs world, pre d →
      w.toolchain.run w.mount tool args d.patience d.fs.clearOutput d.world =
        (.exited status left, fs, world) →
      post (verdict w.config.sourcePath tool (Text.ofUtf8Lossy fs.stderr) status)
        (d.heard w.config.sourcePath ⟨tool, args, d.fs.clearOutput, .exited status left, fs⟩ world
          left))
    (hstop : ∀ d run fs world, pre d →
      w.toolchain.run w.mount tool args d.patience d.fs.clearOutput d.world = (run, fs, world) →
      (∀ status left, run ≠ .exited status left) →
      stop { d with
        fs := fs, world := world
        calls := d.calls ++ [⟨tool, args, d.fs.clearOutput, run, fs⟩] }) :
    Ensures pre (invoke w tool args) post stop := by
  -- from one draft on, so that what the tool has done can be named
  refine of_each fun d hd => ?_
  let call (status : Int) (left : Nat) (fs : FileSystem) : ToolCall :=
    ⟨tool, args, d.fs.clearOutput, .exited status left, fs⟩
  let ran (status : Int) (left : Nat) (fs : FileSystem) (world : World) : Prop :=
    w.toolchain.run w.mount tool args d.patience d.fs.clearOutput d.world =
      (.exited status left, fs, world)
  have hrun : Ensures (fun d' => d' = { d with fs := d.fs.clearOutput })
      (Session.runTool w tool args)
      (fun status d' => ∃ left fs world, ran status left fs world ∧ d' = { d with
        fs := fs, world := world, patience := left, calls := d.calls ++ [call status left fs] })
      stop :=
    runTool (fun d' status left fs world hd' hrun => by
        subst hd'
        exact ⟨left, fs, world, hrun, rfl⟩)
      (fun d' run fs world hd' hrun hcut => by
        subst hd'
        exact hstop d run fs world hd hrun hcut)
  refine bind (modify fun d' hd' => by rw [hd']) fun _ => hrun.bind fun status => ?_
  have hgather : Ensures
      (fun d' => ∃ left fs world, ran status left fs world ∧ d' = { d with
        fs := fs, world := world, patience := left, calls := d.calls ++ [call status left fs] })
      (Session.gatherOutput tool)
      (fun stderr d' => ∃ left fs world, ran status left fs world ∧
        stderr = Text.ofUtf8Lossy fs.stderr ∧
        d' = { d.heard w.config.sourcePath (call status left fs) world left with
          gate := (Event.ofOutput tool (Text.ofUtf8Lossy fs.stdout) stderr).foldl Gate.emit
            d.gate }) stop := by
    refine gatherOutput fun d' hd' => ?_
    obtain ⟨left, fs, world, hran, rfl⟩ := hd'
    exact ⟨left, fs, world, hran, rfl, rfl⟩
  refine hgather.bind fun stderr => (reportFailure fun d' hd' => ?_).bind fun _ =>
    pure fun d' (hd' : post (verdict w.config.sourcePath tool stderr status) d') => hd'
  obtain ⟨left, fs, world, hran, rfl, rfl⟩ := hd'
  have hpost := hok d status left fs world hd hran
  rw [Draft.heard, ToolCall.told, List.foldl_append] at hpost
  exact hpost

/-- What comes of a run of a tool, apart from the words in which it is told. -/
theorem invoke {w : Workshop World} {tool : Tool} {args : List String}
    {post : Option Failure → Draft World → Prop}
    (hok : ∀ d status left fs world gate stdout stderr, pre d →
      w.toolchain.run w.mount tool args d.patience d.fs.clearOutput d.world =
        (.exited status left, fs, world) →
      Spoken tool d.gate gate →
      post (verdict w.config.sourcePath tool (Text.ofUtf8Lossy fs.stderr) status) { d with
        fs := fs.clearOutput, world := world, patience := left, gate := gate
        stdout := stdout, stderr := stderr
        calls := d.calls ++ [⟨tool, args, d.fs.clearOutput, .exited status left, fs⟩] })
    (hstop : ∀ d run fs world, pre d →
      w.toolchain.run w.mount tool args d.patience d.fs.clearOutput d.world = (run, fs, world) →
      stop { d with
        fs := fs, world := world
        calls := d.calls ++ [⟨tool, args, d.fs.clearOutput, run, fs⟩] }) :
    Ensures pre (invoke w tool args) post stop :=
  invoke_heard
    (fun d status left fs world hd hrun => hok d status left fs world _ _ _ hd hrun
      ⟨ToolCall.told w.config.sourcePath ⟨tool, args, d.fs.clearOutput, .exited status left, fs⟩,
        fun _ => ToolCall.mem_told, rfl⟩)
    fun d run fs world hd hrun _ => hstop d run fs world hd hrun

/-- Waiting for a frame takes time only, and ends with both reports. -/
theorem awaitFrame {signals : Frame.Signals} {post : Unit → Draft World → Prop}
    (hok : ∀ d patience, pre d → signals.settled?.isSome → signals.outcome = .ok () →
      post () { d with patience := patience })
    (hstop : ∀ d patience, pre d → stop { d with patience := patience }) :
    Ensures pre (awaitFrame signals) post stop := by
  refine ⟨fun d hd => ?_⟩
  simp only [Session.awaitFrame, Step.on_bind, Step.on_get]
  cases hsettled : signals.settled? with
  | none => exact hstop d d.patience hd
  | some after =>
    by_cases hlate : (after > 0 && after ≥ d.patience) = true
    · simp only [hlate, if_true, Step.on_bind, Step.on_throw]
      exact hstop d d.patience hd
    · simp only [hlate]
      cases houtcome : signals.outcome with
      | ok => exact hok d _ hd (hsettled ▸ rfl) houtcome
      | error e => exact hstop d _ hd

/-- A frame is recorded, and reported if it could be made. -/
theorem frameStage {w : Workshop World} {module : ByteArray} {post : Unit → Draft World → Prop}
    (hok : ∀ d signals world patience, pre d →
      w.frames.create module Frame.bootstrap d.world = (.ok signals, world) →
      signals.settled?.isSome → signals.outcome = .ok () →
      post () { d with
        world := world, gate := d.gate.emit (.frameCreated module.size), patience := patience
        frames := d.frames ++ [⟨module, .ok signals⟩] })
    (hlost : ∀ d signals world patience, pre d →
      w.frames.create module Frame.bootstrap d.world = (.ok signals, world) →
      stop { d with
        world := world, gate := d.gate.emit (.frameCreated module.size), patience := patience
        frames := d.frames ++ [⟨module, .ok signals⟩] })
    (hstop : ∀ d e world, pre d →
      w.frames.create module Frame.bootstrap d.world = (.error e, world) →
      stop { d with world := world, frames := d.frames ++ [⟨module, .error e⟩] }) :
    Ensures pre (frameStage w module) post stop := by
  refine ⟨fun d hd => ?_⟩
  rcases hcreate : w.frames.create module Frame.bootstrap d.world with ⟨e | signals, world⟩
  · simp only [Session.frameStage, Step.on_bind, Step.on_get, hcreate, Step.on_set, Step.on_abort]
    exact hstop d e world hd hcreate
  · have hawait : Ensures
        (fun d' => d' = { d with
          world := world, gate := d.gate.emit (.frameCreated module.size)
          frames := d.frames ++ [⟨module, .ok signals⟩] })
        (Session.awaitFrame signals) post stop :=
      awaitFrame (fun d' patience hd' hsettled houtcome =>
        hd' ▸ hok d signals world patience hd hcreate hsettled houtcome)
        (fun d' patience hd' => hd' ▸ hlost d signals world patience hd hcreate)
    simp only [Session.frameStage, Session.emit, Step.on_bind, Step.on_get, hcreate, Step.on_set,
      Step.on_modify]
    exact hawait.kept _ rfl

end Ensures

/-! ## The session as a whole -/

/-- A session is concluded in one of three ways, by how its stages have ended. -/
theorem conduct_cases (w : Workshop World) (kind : Kind) (manifest : Option Manifest)
    (source : String) (fs : FileSystem) (world : World) :
    let start := Draft.start kind source (1000 * w.config.timeoutSeconds) fs world
    (∃ outcome d, Step.on (stages w kind manifest) start = (.ok outcome, d) ∧
      conduct w kind manifest source fs world = conclude kind d outcome) ∨
    (∃ cause d, Step.on (stages w kind manifest) start = (.error (.error cause), d) ∧
      conduct w kind manifest source fs world = concludeError d cause) ∨
    ∃ d, Step.on (stages w kind manifest) start = (.error .waiting, d) ∧
      conduct w kind manifest source fs world =
        concludeTimeout kind w.config.timeoutSeconds d := by
  intro start
  have hconduct : conduct w kind manifest source fs world =
      match Step.on (stages w kind manifest) start with
      | (.ok outcome, d) => conclude kind d outcome
      | (.error (.error cause), d) => concludeError d cause
      | (.error .waiting, d) => concludeTimeout kind w.config.timeoutSeconds d := rfl
  rw [hconduct]
  rcases Step.on (stages w kind manifest) start with ⟨result, d⟩
  cases result with
  | ok outcome => exact Or.inl ⟨outcome, d, rfl, rfl⟩
  | error interruption =>
    cases interruption with
    | error cause => exact Or.inr (Or.inl ⟨cause, d, rfl, rfl⟩)
    | waiting => exact Or.inr (Or.inr ⟨d, rfl, rfl⟩)

end Workbench.Session
