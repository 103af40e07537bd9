import Workbench.Proofs.Steps
import Workbench.Proofs.Timeless

set_option autoImplicit false

/-! # Two runs of one session

A session that is run twice, from file systems that hold the same apart from times, is told twice
the same. Nothing that the session does by itself looks at times; for the tools this has to be
assumed. The drafts of the two runs go side by side: after each step they are the same again, and
both steps have yielded the same value or were interrupted for the same cause. -/

namespace Workbench

open FileSystem (SameContent SameOutcome SameOutcomeIn Reachable)

variable {World α β : Type}

/-- A toolchain uses the file system through operations, and is not influenced by times. -/
structure Toolchain.Timeless (t : Toolchain World) (mount : Option (Asset.Mount World)) :
    Prop where
  reachable : ∀ tool args patience {fs : FileSystem} (world : World), Reachable fs →
    Reachable (t.run mount tool args patience fs world).2.1
  same : ∀ tool args patience {fs fs' : FileSystem} (world : World), Reachable fs →
    Reachable fs' → SameContent fs fs' →
    SameOutcomeIn (t.run mount tool args patience fs world)
      (t.run mount tool args patience fs' world)

namespace Session

/-- Two runs of a tool are the same: what was asked of it, how it ended, and apart from times what
    it was given and what it left. -/
structure ToolCall.Same (call call' : ToolCall) : Prop where
  tool : call.tool = call'.tool
  args : call.args = call'.args
  run : call.run = call'.run
  before : SameContent call.before call'.before
  after : SameContent call.after call'.after

/-- Two drafts tell the same, whatever their file systems are. -/
structure Draft.Retells (d d' : Draft World) : Prop where
  world : d.world = d'.world
  gate : d.gate = d'.gate
  source : d.source = d'.source
  stdout : d.stdout = d'.stdout
  stderr : d.stderr = d'.stderr
  patience : d.patience = d'.patience
  calls : List.Forall₂ ToolCall.Same d.calls d'.calls
  frames : d.frames = d'.frames

/-- Two drafts are the same apart from times. -/
structure Draft.Same (d d' : Draft World) : Prop where
  told : Draft.Retells d d'
  fs : SameContent d.fs d'.fs
  reachable : Reachable d.fs
  reachable' : Reachable d'.fs

/-- Two steps agree where they begin on the same drafts. -/
structure Agree (m m' : Step World α) : Prop where
  result : ∀ {d d' : Draft World}, Draft.Same d d' → (Step.on m d).1 = (Step.on m' d').1
  left : ∀ {d d' : Draft World}, Draft.Same d d' →
    Draft.Same (Step.on m d).2 (Step.on m' d').2

theorem Draft.Retells.of_fs {d d' : Draft World} (h : Draft.Retells d d') (fs fs' : FileSystem) :
    Draft.Retells { d with fs := fs } { d' with fs := fs' } :=
  ⟨h.world, h.gate, h.source, h.stdout, h.stderr, h.patience, h.calls, h.frames⟩

/-! ## The file system under the operations of a session -/

theorem reachable_writeFile {fs : FileSystem} (h : Reachable fs) (path : String)
    (data : ByteArray) : Reachable (fs.writeFile path data).2 :=
  .step none () (.writeFile path data) h

theorem reachable_clearOutput {fs : FileSystem} (h : Reachable fs) : Reachable fs.clearOutput :=
  .step none () .clearOutput h

theorem reachable_readAll {fs : FileSystem} (h : Reachable fs)
    (mount : Option (Asset.Mount World)) (world : World) (path : String) :
    Reachable (fs.readAll mount world path).2.1 :=
  .step mount world (.readAll path) h

namespace Agree

/-! ## Putting steps together -/

theorem bind {m m' : Step World α} {f f' : α → Step World β} (hm : Agree m m')
    (hf : ∀ a, Agree (f a) (f' a)) : Agree (m >>= f) (m' >>= f') := by
  have hboth : ∀ {d d' : Draft World}, Draft.Same d d' →
      (Step.on (m >>= f) d).1 = (Step.on (m' >>= f') d').1 ∧
        Draft.Same (Step.on (m >>= f) d).2 (Step.on (m' >>= f') d').2 := by
    intro d d' hd
    have hresult := hm.result hd
    have hleft := hm.left hd
    rw [Step.on_bind, Step.on_bind]
    rcases hon : Step.on m d with ⟨result, e⟩
    rcases hon' : Step.on m' d' with ⟨result', e'⟩
    rw [hon, hon'] at hresult hleft
    cases hresult
    cases result with
    | error i => exact ⟨rfl, hleft⟩
    | ok a => exact ⟨(hf a).result hleft, (hf a).left hleft⟩
  exact ⟨fun hd => (hboth hd).1, fun hd => (hboth hd).2⟩

/-- Each step may look at its draft before it goes on. -/
theorem bind_get {f f' : Draft World → Step World α}
    (hf : ∀ d d', Draft.Same d d' → Agree (f d) (f' d')) : Agree (get >>= f) (get >>= f') :=
  ⟨fun {d d'} hd => (hf d d' hd).result hd, fun {d d'} hd => (hf d d' hd).left hd⟩

theorem pure (a : α) : Agree (pure a : Step World α) (pure a) := ⟨fun _ => rfl, fun hd => hd⟩

theorem throw (i : Interruption) : Agree (throw i : Step World α) (throw i) :=
  ⟨fun _ => rfl, fun hd => hd⟩

theorem abort (cause : Error) : Agree (abort cause : Step World α) (abort cause) :=
  .throw (.error cause)

theorem modified {f f' : Draft World → Draft World}
    (hf : ∀ {d d'}, Draft.Same d d' → Draft.Same (f d) (f' d')) :
    Agree (modify f : Step World PUnit) (modify f') :=
  ⟨fun _ => rfl, fun hd => hf hd⟩

theorem replaced {e e' : Draft World} (he : Draft.Same e e') :
    Agree (set e : Step World PUnit) (set e') :=
  ⟨fun _ => rfl, fun _ => he⟩

/-! ## Single steps -/

theorem emit (event : Event) : Agree (emit event : Step World Unit) (emit event) :=
  .modified fun hd => ⟨{ hd.told with gate := congrArg (·.emit event) hd.told.gate }, hd.fs,
    hd.reachable, hd.reachable'⟩

theorem moveTo (state : State) : Agree (moveTo state : Step World Unit) (moveTo state) :=
  .modified fun hd => ⟨{ hd.told with gate := congrArg (·.transition state) hd.told.gate }, hd.fs,
    hd.reachable, hd.reachable'⟩

theorem clearOutput : Agree (modify fun d => { d with fs := d.fs.clearOutput } : Step World PUnit)
    (modify fun d => { d with fs := d.fs.clearOutput }) :=
  .modified fun hd => ⟨hd.told.of_fs _ _, hd.fs.clearOutput, reachable_clearOutput hd.reachable,
    reachable_clearOutput hd.reachable'⟩

theorem writeFile (path : String) (data : ByteArray) :
    Agree (change fun fs => fs.writeFile path data : Step World Unit)
      (change fun fs => fs.writeFile path data) := by
  refine bind_get fun d d' hd => ?_
  dsimp only
  obtain ⟨hresult, hleft⟩ := hd.fs.writeFile path data
  have hreach := reachable_writeFile hd.reachable path data
  have hreach' := reachable_writeFile hd.reachable' path data
  rcases hwrite : d.fs.writeFile path data with ⟨result, fs⟩
  rcases hwrite' : d'.fs.writeFile path data with ⟨result', fs'⟩
  rw [hwrite] at hresult hleft hreach
  rw [hwrite'] at hresult hleft hreach'
  cases hresult
  refine (replaced ⟨hd.told.of_fs fs fs', hleft, hreach, hreach'⟩).bind fun _ => ?_
  cases result with
  | ok done => exact pure ()
  | error e => exact abort (.fileSystem e)

variable {w : Workshop World}

theorem readFile (path : String) : Agree (readFile w path) (readFile w path) := by
  refine bind_get fun d d' hd => ?_
  rw [← hd.told.world]
  obtain ⟨hresult, hleft, hworld⟩ := hd.fs.readAll w.mount d.world path
  have hreach := reachable_readAll hd.reachable w.mount d.world path
  have hreach' := reachable_readAll hd.reachable' w.mount d.world path
  rcases hread : d.fs.readAll w.mount d.world path with ⟨result, fs, world⟩
  rcases hread' : d'.fs.readAll w.mount d.world path with ⟨result', fs', world'⟩
  rw [hread] at hresult hleft hworld hreach
  rw [hread'] at hresult hleft hworld hreach'
  cases hresult
  refine (replaced ⟨?_, hleft, hreach, hreach'⟩).bind fun _ => pure result
  exact { hd.told with world := hworld }

/-! ## Running a tool -/

theorem runTool (ht : w.toolchain.Timeless w.mount) (tool : Tool) (args : List String) :
    Agree (runTool w tool args) (runTool w tool args) := by
  refine bind_get fun d d' hd => ?_
  rw [← hd.told.world, ← hd.told.patience]
  obtain ⟨hresult, hleft, hworld⟩ :=
    ht.same tool args d.patience d.world hd.reachable hd.reachable' hd.fs
  have hreach := ht.reachable tool args d.patience d.world hd.reachable
  have hreach' := ht.reachable tool args d.patience d.world hd.reachable'
  rcases hrun : w.toolchain.run w.mount tool args d.patience d.fs d.world with ⟨run, fs, world⟩
  rcases hrun' : w.toolchain.run w.mount tool args d.patience d'.fs d.world with
    ⟨run', fs', world'⟩
  rw [hrun] at hresult hleft hworld hreach
  rw [hrun'] at hresult hleft hworld hreach'
  cases hresult
  have hcall : ToolCall.Same ⟨tool, args, d.fs, run, fs⟩ ⟨tool, args, d'.fs, run, fs'⟩ :=
    ⟨rfl, rfl, rfl, hd.fs, hleft⟩
  refine (replaced ⟨?_, hleft, hreach, hreach'⟩).bind fun _ => ?_
  · exact { hd.told with
      world := hworld
      patience := rfl
      calls := List.rel_append hd.told.calls (.cons hcall .nil) }
  cases run with
  | exited status left =>
    have htime : Agree (modify fun d => { d with patience := left } : Step World PUnit)
        (modify fun d => { d with patience := left }) :=
      .modified fun hd => ⟨{ hd.told with patience := rfl }, hd.fs, hd.reachable, hd.reachable'⟩
    exact htime.bind fun _ => pure status
  | failed cause => exact abort (.toolchain cause)
  | running => exact throw .waiting

/-- Both tools have written the same, and it is taken out of the buffers on both sides. -/
theorem gatherOutput (tool : Tool) :
    Agree (gatherOutput tool : Step World String) (gatherOutput tool) := by
  refine bind_get fun d d' hd => ?_
  dsimp only [FileSystem.takeStdout, FileSystem.takeStderr]
  rw [← hd.fs.stdout, ← hd.fs.stderr, ← hd.told.stdout, ← hd.told.stderr]
  refine (replaced ⟨?_, ?_, reachable_clearOutput hd.reachable,
    reachable_clearOutput hd.reachable'⟩).bind fun _ => ?_
  · exact { hd.told with stdout := rfl, stderr := rfl }
  · exact { hd.fs with stdout := rfl, stderr := rfl }
  · split
    · exact (emit _).bind fun _ => pure _
    · exact pure _

theorem reportFailure (tool : Tool) (failure : Option Failure) :
    Agree (reportFailure tool failure : Step World Unit) (reportFailure tool failure) := by
  cases failure with
  | none => exact pure ()
  | some f =>
    rw [Session.reportFailure]
    split
    · exact pure ()
    · exact emit _

theorem invoke (ht : w.toolchain.Timeless w.mount) (tool : Tool) (args : List String) :
    Agree (invoke w tool args) (invoke w tool args) := by
  unfold Session.invoke
  exact clearOutput.bind fun _ => (runTool ht tool args).bind fun status =>
    (gatherOutput tool).bind fun stderr => (reportFailure tool _).bind fun _ => pure _

/-! ## The stages -/

theorem formatStage (ht : w.toolchain.Timeless w.mount) :
    Agree (formatStage w) (formatStage w) := by
  unfold Session.formatStage
  refine (moveTo .formatting).bind fun _ => bind_get fun d d' hd => ?_
  rw [← hd.told.source]
  refine (writeFile _ _).bind fun _ => (invoke ht .format _).bind fun failure => ?_
  cases failure with
  | some f => exact pure (some f)
  | none =>
    refine (readFile w.config.sourcePath).bind fun result => ?_
    cases result with
    | error e => exact abort (.fileSystem e)
    | ok bytes =>
      cases htext : Text.ofUtf8? bytes with
      | none =>
        simp only [htext]
        exact pure _
      | some text =>
        simp only [htext]
        have htake : Agree (modify fun d => { d with source := text } : Step World PUnit)
            (modify fun d => { d with source := text }) :=
          .modified fun hd => ⟨{ hd.told with source := rfl }, hd.fs, hd.reachable, hd.reachable'⟩
        exact htake.bind fun _ => (emit (.formatted text)).bind fun _ => pure none

theorem compileStage (ht : w.toolchain.Timeless w.mount) (imports : List String) (m : Manifest) :
    Agree (compileStage w imports m) (compileStage w imports m) := by
  unfold Session.compileStage
  refine (moveTo .compiling).bind fun _ => (writeFile _ _).bind fun _ =>
    (invoke ht .compile _).bind fun failure => ?_
  cases failure with
  | some f => exact pure (some f)
  | none =>
    refine bind_get fun d d' hd => ?_
    rw [← hd.fs.contains]
    split
    · exact pure none
    · exact pure _

theorem linkStage (ht : w.toolchain.Timeless w.mount) (imports : List String) (m : Manifest) :
    Agree (linkStage w imports m) (linkStage w imports m) := by
  unfold Session.linkStage
  refine (moveTo .linking).bind fun _ => (writeFile _ _).bind fun _ =>
    (invoke ht .link _).bind fun failure => ?_
  cases failure with
  | some f => exact pure _
  | none =>
    refine (readFile w.config.modulePath).bind fun result => ?_
    split
    · exact pure _
    · exact pure _
    · exact abort _

theorem awaitFrame (signals : Frame.Signals) :
    Agree (awaitFrame signals : Step World Unit) (awaitFrame signals) := by
  refine bind_get fun d d' hd => ?_
  rw [← hd.told.patience]
  cases signals.settled? with
  | none => exact throw .waiting
  | some after =>
    dsimp only
    split
    · exact throw .waiting
    · refine (replaced ?_).bind fun _ => ?_
      · exact ⟨{ hd.told with patience := rfl }, hd.fs, hd.reachable, hd.reachable'⟩
      · cases signals.outcome with
        | ok done => exact pure ()
        | error e => exact abort (.frame e)

theorem frameStage (module : ByteArray) : Agree (frameStage w module) (frameStage w module) := by
  refine bind_get fun d d' hd => ?_
  rw [← hd.told.world, ← hd.told.frames]
  rcases w.frames.create module Frame.bootstrap d.world with ⟨result, world⟩
  refine (replaced ?_).bind fun _ => ?_
  · exact ⟨{ hd.told with world := rfl, frames := rfl }, hd.fs, hd.reachable, hd.reachable'⟩
  · cases result with
    | error e => exact abort (.frame e)
    | ok signals => exact (emit _).bind fun _ => awaitFrame signals

end Agree

/-! ## After the reset -/

/-- What a session does once its workspace is reset. -/
def build (w : Workshop World) (kind : Kind) (manifest : Option Manifest) :
    Step World Outcome := do
  if let some f ← formatStage w then return .failed f
  match manifest.filter fun _ => kind = .run with
  | none => return .formatted
  | some m =>
    let imports := Source.imports (← get).source
    if let some f ← compileStage w imports m then return .failed f
    match ← linkStage w imports m with
    | .error f => return .failed f
    | .ok module =>
      frameStage w module
      return .ready module

theorem stages_eq_build (w : Workshop World) (kind : Kind) (manifest : Option Manifest) :
    stages w kind manifest = resetWorkspace w.config >>= fun _ => build w kind manifest := rfl

/-- A session that is built twice from the same workspace is told twice the same. -/
theorem agree_build {w : Workshop World} (ht : w.toolchain.Timeless w.mount) (kind : Kind)
    (manifest : Option Manifest) :
    Agree (build w kind manifest) (build w kind manifest) := by
  unfold build
  refine (Agree.formatStage ht).bind fun failure => ?_
  cases failure with
  | some f => exact .pure _
  | none =>
    cases manifest.filter fun _ => kind = .run with
    | none => exact .pure _
    | some m =>
      refine .bind_get fun d d' hd => ?_
      rw [← hd.told.source]
      refine (Agree.compileStage ht _ m).bind fun failure => ?_
      cases failure with
      | some f => exact .pure _
      | none =>
        refine (Agree.linkStage ht _ m).bind fun result => ?_
        cases result with
        | error f => exact .pure _
        | ok module => exact (Agree.frameStage module).bind fun _ => .pure _

/-! ## Concluding -/

/-- How a session is concluded, given how its stages have ended. -/
def concluded (w : Workshop World) (kind : Kind) :
    Except Interruption Outcome × Draft World → Except Error Session × Draft World
  | (.ok outcome, d) => conclude kind d outcome
  | (.error (.error cause), d) => concludeError d cause
  | (.error .waiting, d) => concludeTimeout kind w.config.timeoutSeconds d

theorem conduct_eq_concluded (w : Workshop World) (kind : Kind) (manifest : Option Manifest)
    (source : String) (fs : FileSystem) (world : World) :
    conduct w kind manifest source fs world =
      concluded w kind (Step.on (stages w kind manifest)
        (.start kind source (1000 * w.config.timeoutSeconds) fs world)) := by
  unfold conduct concluded Step.on
  rfl

/-- Stages that have ended the same way, with drafts that tell the same, are concluded alike. -/
theorem concluded_retells (w : Workshop World) (kind : Kind)
    {ended ended' : Except Interruption Outcome × Draft World} (hresult : ended.1 = ended'.1)
    (h : Draft.Retells ended.2 ended'.2) :
    (concluded w kind ended).1 = (concluded w kind ended').1 ∧
      Draft.Retells (concluded w kind ended).2 (concluded w kind ended').2 := by
  obtain ⟨result, d⟩ := ended
  obtain ⟨result', d'⟩ := ended'
  cases hresult
  replace h : Draft.Retells d d' := h
  cases result with
  | ok outcome =>
    have hgate := congrArg (fun g => (g.settle outcome.state none).2) h.gate
    refine ⟨?_, { h with gate := hgate }⟩
    simp only [concluded, conclude, h.source, h.stdout, h.stderr]
  | error i =>
    cases i with
    | error cause =>
      have hgate := congrArg
        (fun g => (g.settle .failed (some (.environmentError cause.message))).2) h.gate
      exact ⟨rfl, { h with gate := hgate }⟩
    | waiting =>
      have hgate := congrArg
        (fun g => (g.settle .timedOut (some (.timedOut w.config.timeoutSeconds))).2) h.gate
      refine ⟨?_, { h with gate := hgate }⟩
      simp only [concluded, concludeTimeout, h.source, h.stdout, h.stderr]

/-- They are concluded with the file systems that they have left, the output buffers apart. -/
theorem concluded_sameContent (w : Workshop World) (kind : Kind)
    {ended ended' : Except Interruption Outcome × Draft World} (hresult : ended.1 = ended'.1)
    (h : SameContent ended.2.fs ended'.2.fs) :
    SameContent (concluded w kind ended).2.fs (concluded w kind ended').2.fs := by
  obtain ⟨result, d⟩ := ended
  obtain ⟨result', d'⟩ := ended'
  cases hresult
  cases result with
  | ok outcome => exact h
  | error i =>
    cases i with
    | error cause => exact h
    | waiting => exact h.clearOutput

end Session

end Workbench
