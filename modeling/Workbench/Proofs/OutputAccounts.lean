import Workbench.Proofs.ImportLines
import Workbench.Proofs.OutputBuffers
import Workbench.Proofs.TraceLaw

set_option autoImplicit false

/-! # The output of a session

What tools write to the standard streams passes through two buffers that everyone shares. A session
empties them before each run of a tool and takes their contents after it, so what it reports of a
run is what the tool has written in that run: nothing from before, and nothing of a run that did not
come to its end. The text of the session is what its events carry, in order. The invariant speaks of
the gate, the text gathered so far and the runs; only running a tool changes any of these in a way
that matters. -/

namespace Workbench

/-- Nothing is in the buffers of the standard streams. -/
structure FileSystem.Drained (fs : FileSystem) : Prop where
  stdout : fs.stdout = .empty
  stderr : fs.stderr = .empty

theorem FileSystem.drained_clearOutput (fs : FileSystem) : fs.clearOutput.Drained := ⟨rfl, rfl⟩

/-- Changing nodes puts nothing into the buffers. -/
theorem FileSystem.Drained.of_onlyNodes {fs fs' : FileSystem} (h : fs.Drained)
    (hnodes : fs.OnlyNodes fs') : fs'.Drained :=
  ⟨hnodes.stdout.trans h.stdout, hnodes.stderr.trans h.stderr⟩

namespace Session

/-! ## What is told of a run -/

namespace Event

/-- What an event carries of the standard output. -/
def stdout : Event → String
  | .output _ out _ => out
  | _ => ""

/-- What an event carries of the standard error. -/
def stderr : Event → String
  | .output _ _ err => err
  | _ => ""

/-- Whether an event carries what a tool has written. -/
def isOutput : Event → Bool
  | .output .. => true
  | _ => false

/-- Whether an event is about what a tool has written. -/
def isTold : Event → Bool
  | .output .. | .diagnostics .. => true
  | _ => false

/-- The report of what was written to the two streams, if it is anything. -/
def ofWritten (tool : Tool) (out err : ByteArray) : List Event :=
  if out.size = 0 ∧ err.size = 0 then []
  else [.output tool (Text.ofUtf8Lossy out) (Text.ofUtf8Lossy err)]

end Event

end Session

/-! ## Lossy decoding -/

/-- After a byte there is a character, or one under way. -/
theorem Text.Decoder.step_ne (d : Decoder) (b : UInt8) :
    (d.step b).out ≠ [] ∨ (d.step b).pending.isSome := by
  have hbegin : ∀ out, (Decoder.begin out b).out ≠ [] ∨ (Decoder.begin out b).pending.isSome := by
    intro out
    unfold Decoder.begin
    split
    · exact Or.inl (List.cons_ne_nil _ _)
    · exact Or.inl (List.cons_ne_nil _ _)
    · exact Or.inr rfl
  unfold Decoder.step
  split
  · exact hbegin _
  · exact hbegin _
  · split
    · dsimp only
      split
      · exact Or.inl (List.cons_ne_nil _ _)
      · exact Or.inr rfl
    · exact hbegin _

theorem Text.Decoder.finish_ne_nil {d : Decoder} (h : d.out ≠ [] ∨ d.pending.isSome) :
    d.finish ≠ [] := by
  unfold Decoder.finish
  rw [ne_eq, List.reverse_eq_nil_iff]
  split
  · exact List.cons_ne_nil _ _
  · next hnone => exact h.resolve_right hnone

/-- No bytes are lost without a trace. -/
theorem Text.ofUtf8Lossy_isEmpty (bytes : ByteArray) :
    (ofUtf8Lossy bytes).isEmpty = true ↔ bytes.size = 0 := by
  rw [String.isEmpty_iff, ByteArray.size_eq_zero_iff]
  constructor
  · intro hempty
    unfold ofUtf8Lossy at hempty
    split at hempty
    · next text htext =>
      rw [ofUtf8?_eq_some_iff.1 htext, hempty]
      rfl
    · by_contra hbytes
      have hne : bytes.data.toList ≠ [] := by
        intro hnil
        exact hbytes (ByteArray.ext (Array.toList_eq_nil_iff.1 hnil))
      obtain ⟨init, last, hlast⟩ := (List.eq_nil_or_concat _).resolve_left hne
      have hfinish := Decoder.finish_ne_nil
        (Decoder.step_ne (init.foldl Decoder.step ⟨[], none⟩) last)
      rw [hlast, List.concat_eq_append, List.foldl_append] at hempty
      exact hfinish (String.ofList_eq_empty_iff.1 hempty)
  · rintro rfl
    rfl

namespace Session

open FileSystem (Drained OnlyNodes Operation)

variable {World : Type}

/-! ## What events carry -/

/-- Events without output carry nothing. -/
theorem Event.join_mute {events : List Event} (h : ∀ event ∈ events, event.isOutput = false) :
    String.join (events.map Event.stdout) = "" ∧ String.join (events.map Event.stderr) = "" := by
  induction events with
  | nil => exact ⟨rfl, rfl⟩
  | cons event events ih =>
    obtain ⟨hout, herr⟩ := ih fun other hother => h other (List.mem_cons_of_mem event hother)
    have hcarries : event.stdout = "" ∧ event.stderr = "" := by
      have hmute := h event List.mem_cons_self
      cases event with
      | output => cases hmute
      | _ => exact ⟨rfl, rfl⟩
    rw [List.map_cons, List.map_cons, String.join_cons, String.join_cons, hcarries.1, hcarries.2,
      hout, herr]
    exact ⟨rfl, rfl⟩

theorem Event.isOutput_of_untold {event : Event} (h : event.isTold = false) :
    event.isOutput = false := by
  cases event with
  | output => cases h
  | _ => rfl

/-- The report of a failure is without output. -/
theorem Event.isOutput_of_mem_ofFailure {tool : Tool} {failure : Option Failure} {event : Event}
    (h : event ∈ ofFailure tool failure) : event.isOutput = false := by
  cases failure with
  | none => cases h
  | some f =>
    simp only [ofFailure] at h
    split at h
    · cases h
    · rw [List.mem_singleton.1 h]
      rfl

theorem Event.join_ofOutput (tool : Tool) (out err : String) :
    String.join ((ofOutput tool out err).map Event.stdout) = out ∧
      String.join ((ofOutput tool out err).map Event.stderr) = err := by
  unfold ofOutput
  by_cases hquiet : (out.isEmpty && err.isEmpty) = true
  · rw [if_pos hquiet]
    rw [Bool.and_eq_true, String.isEmpty_iff, String.isEmpty_iff] at hquiet
    exact ⟨hquiet.1.symm, hquiet.2.symm⟩
  · rw [if_neg hquiet]
    exact ⟨String.empty_append, String.empty_append⟩

/-- What is told of a run carries what the tool has written. -/
theorem ToolCall.join_told (path : String) {call : ToolCall} (hended : call.ended = true) :
    String.join ((call.told path).map Event.stdout) = Text.ofUtf8Lossy call.after.stdout ∧
      String.join ((call.told path).map Event.stderr) = Text.ofUtf8Lossy call.after.stderr := by
  obtain ⟨status, left, hrun⟩ := ToolCall.ended_iff.1 hended
  have houtput := Event.join_ofOutput call.tool (Text.ofUtf8Lossy call.after.stdout)
    (Text.ofUtf8Lossy call.after.stderr)
  have hmute : ∀ event ∈ Event.ofFailure call.tool
      (verdict path call.tool (Text.ofUtf8Lossy call.after.stderr) status),
      event.isOutput = false := fun _ => Event.isOutput_of_mem_ofFailure
  have hfailure := Event.join_mute hmute
  simp only [ToolCall.told, hrun]
  rw [List.map_append, List.map_append, String.join_append, String.join_append, houtput.1,
    houtput.2, hfailure.1, hfailure.2]
  exact ⟨String.append_empty, String.append_empty⟩

/-- Of a run that did not come to its end nothing is told. -/
theorem ToolCall.told_of_not_ended {path : String} {call : ToolCall} (h : call.ended = false) :
    call.told path = [] := by
  unfold ToolCall.told
  split
  · next status left hrun =>
    rw [ToolCall.ended_iff.2 ⟨status, left, hrun⟩] at h
    cases h
  · rfl

theorem ToolCall.isTold_of_mem {path : String} {call : ToolCall} {event : Event}
    (h : event ∈ call.told path) : event.isTold = true := by
  obtain ⟨out, err, rfl⟩ | ⟨found, rfl⟩ := ToolCall.mem_told h <;> rfl

/-! ## The accounts of a session -/

/-- The text of a session is what its events carry, its events are those of the runs so far, and
    every run began with empty buffers. -/
structure Accounted (w : Workshop World) (d : Draft World) : Prop where
  stdout : d.stdout = String.join (d.gate.passed.map Event.stdout)
  stderr : d.stderr = String.join (d.gate.passed.map Event.stderr)
  told : d.gate.passed.filter Event.isTold = d.calls.flatMap (·.told w.config.sourcePath)
  drained : ∀ call ∈ d.calls, Drained call.before

/-- The accounts of a session that has not settled. -/
structure Accruing (w : Workshop World) (d : Draft World) : Prop extends Accounted w d where
  unsettled : d.gate.isSettled = false

/-- Between two runs of tools every run has ended, and nothing is left in the buffers. -/
structure Balanced (w : Workshop World) (d : Draft World) : Prop extends Accruing w d where
  empty : Drained d.fs
  ended : ∀ call ∈ d.calls, call.ended = true

/-- More events are reported that are not about a run. -/
theorem Accounted.report {w : Workshop World} {d : Draft World} (h : Accounted w d)
    {events : List Event} (hevents : ∀ event ∈ events, event.isTold = false) {gate : Gate}
    (hgate : gate.passed = d.gate.passed ++ events) : Accounted w { d with gate := gate } := by
  obtain ⟨hout, herr⟩ := Event.join_mute fun event hevent =>
    Event.isOutput_of_untold (hevents event hevent)
  refine ⟨?_, ?_, ?_, h.drained⟩
  · rw [hgate, List.map_append, String.join_append, ← h.stdout, hout]
    exact String.append_empty.symm
  · rw [hgate, List.map_append, String.join_append, ← h.stderr, herr]
    exact String.append_empty.symm
  · have hnone : events.filter Event.isTold = [] :=
      List.filter_eq_nil_iff.2 fun event hevent => by simp [hevents event hevent]
    rw [hgate, List.filter_append, h.told, hnone]
    exact List.append_nil _

/-- The settlement is not about a run either. -/
theorem Accounted.settle {w : Workshop World} {d : Draft World} (h : Accounted w d)
    (hopen : d.gate.isSettled = false) (state : State) {extra : Option Event}
    (hextra : ∀ event ∈ extra, event.isTold = false) :
    Accounted w { d with gate := (d.gate.settle state extra).2 } := by
  have hevents : ∀ event ∈ Event.state d.gate.kind state :: extra.toList, event.isTold = false := by
    intro event hevent
    rcases List.mem_cons.1 hevent with rfl | hevent
    · rfl
    · exact hextra event (Option.mem_toList.1 hevent)
  exact h.report hevents (by rw [Gate.settle_of_unsettled hopen])

/-- One more run has begun with empty buffers. -/
theorem Accounted.drained_append {w : Workshop World} {d : Draft World} (h : Accounted w d)
    {call : ToolCall} (hbefore : call.before = d.fs.clearOutput) :
    ∀ other ∈ d.calls ++ [call], Drained other.before := by
  intro other hother
  rcases List.mem_append.1 hother with hother | hother
  · exact h.drained other hother
  · rw [List.mem_singleton.1 hother, hbefore]
    exact FileSystem.drained_clearOutput d.fs

/-- Running a tool to its end keeps the accounts. -/
theorem Balanced.heard {w : Workshop World} {d : Draft World} (h : Balanced w d) {call : ToolCall}
    (hbefore : call.before = d.fs.clearOutput) (hended : call.ended = true) (world : World)
    (left : Nat) : Balanced w (d.heard w.config.sourcePath call world left) := by
  have hjoin := ToolCall.join_told w.config.sourcePath hended
  have hgate : (d.heard w.config.sourcePath call world left).gate.passed =
      d.gate.passed ++ call.told w.config.sourcePath := by
    rw [Draft.heard, Gate.foldl_emit_of_unsettled h.unsettled]
  refine ⟨⟨⟨?_, ?_, ?_, ?_⟩, ?_⟩, FileSystem.drained_clearOutput _, ?_⟩
  · rw [hgate, List.map_append, String.join_append, ← h.stdout, hjoin.1]
    rfl
  · rw [hgate, List.map_append, String.join_append, ← h.stderr, hjoin.2]
    rfl
  · have htold : (call.told w.config.sourcePath).filter Event.isTold =
        call.told w.config.sourcePath :=
      List.filter_eq_self.2 fun _ => ToolCall.isTold_of_mem
    rw [hgate, List.filter_append, h.told, htold, Draft.heard, List.flatMap_append,
      List.flatMap_singleton]
  · exact h.drained_append hbefore
  · rw [Draft.heard, Gate.foldl_emit_of_unsettled h.unsettled]
    exact h.unsettled
  · intro other hother
    rcases List.mem_append.1 hother with hother | hother
    · exact h.ended other hother
    · rw [List.mem_singleton.1 hother, hended]

/-- A run that does not come to its end is one of which nothing is told. -/
theorem Balanced.unheard {w : Workshop World} {d : Draft World} (h : Balanced w d) {call : ToolCall}
    (hbefore : call.before = d.fs.clearOutput) (hended : call.ended = false) (fs : FileSystem)
    (world : World) :
    Accruing w { d with fs := fs, world := world, calls := d.calls ++ [call] } := by
  refine ⟨⟨h.stdout, h.stderr, ?_, h.drained_append hbefore⟩, h.unsettled⟩
  rw [h.told, List.flatMap_append, List.flatMap_singleton, ToolCall.told_of_not_ended hended,
    List.append_nil]

/-! ## Stages -/

section Stages

variable {w : Workshop World}

theorem emit_balanced {event : Event} (hevent : event.isTold = false) {stop : Draft World → Prop} :
    Ensures (Balanced w) (emit event) (fun _ d => Balanced w d) stop := by
  refine .emit fun d hd => ?_
  rw [Gate.emit_of_unsettled hd.unsettled]
  exact ⟨⟨hd.report (by simp [hevent]) rfl, hd.unsettled⟩, hd.empty, hd.ended⟩

theorem moveTo_balanced (tool : Tool) {stop : Draft World → Prop} :
    Ensures (Balanced w) (moveTo (stageOf tool)) (fun _ d => Balanced w d) stop := by
  refine .moveTo fun d hd => ?_
  rw [Gate.transition_of_unsettled hd.unsettled (by cases tool <;> rfl)]
  exact ⟨⟨hd.report (by simp [Event.isTold]) rfl, hd.unsettled⟩, hd.empty, hd.ended⟩

/-- A change of nodes, also one that is refused halfway, is not in the accounts. -/
theorem change_balanced {act : FileSystem → Except FileSystem.Error Unit × FileSystem}
    (hact : ∀ fs, OnlyNodes fs (act fs).2) :
    Ensures (Balanced w) (change act) (fun _ d => Balanced w d) (Accruing w) := by
  refine .change (fun d fs hd heq => ?_) fun d e fs hd _ => ?_
  · have hnodes := hact d.fs
    rw [heq] at hnodes
    exact ⟨⟨⟨hd.stdout, hd.stderr, hd.told, hd.drained⟩, hd.unsettled⟩,
      hd.empty.of_onlyNodes hnodes, hd.ended⟩
  · exact ⟨⟨hd.stdout, hd.stderr, hd.told, hd.drained⟩, hd.unsettled⟩

theorem readFile_balanced (path : String) {stop : Draft World → Prop} :
    Ensures (Balanced w) (readFile w path) (fun _ d => Balanced w d) stop := by
  refine .readFile fun d result fs world hd hread => ?_
  have hnodes := OnlyNodes.readAll w.mount d.fs d.world path
  rw [hread] at hnodes
  exact ⟨⟨⟨hd.stdout, hd.stderr, hd.told, hd.drained⟩, hd.unsettled⟩,
    hd.empty.of_onlyNodes hnodes, hd.ended⟩

theorem invoke_balanced (tool : Tool) (args : List String) :
    Ensures (Balanced w) (invoke w tool args) (fun _ d => Balanced w d) (Accruing w) :=
  .invoke_heard (fun _ _ left _ world hd _ => hd.heard rfl rfl world left)
    fun _ _ fs world hd _ hcut => hd.unheard rfl (Bool.eq_false_iff.2 fun hended => by
      obtain ⟨status, left, hrun⟩ := ToolCall.ended_iff.1 hended
      exact hcut status left hrun) fs world

theorem resetWorkspace_balanced (c : Config) :
    Ensures (fun d : Draft World => Accruing w d ∧ d.calls = []) (resetWorkspace c)
      (fun _ d => Balanced w d) (Accruing w) := by
  have hclear : Ensures (fun d : Draft World => Accruing w d ∧ d.calls = [])
      (modify fun d => { d with fs := d.fs.clearOutput }) (fun _ d => Balanced w d)
      (Accruing w) := by
    refine .modify fun d hd => ?_
    obtain ⟨⟨⟨hout, herr, htold, hdrained⟩, hopen⟩, hcalls⟩ := hd
    exact ⟨⟨⟨hout, herr, htold, hdrained⟩, hopen⟩, FileSystem.drained_clearOutput d.fs,
      by simp [hcalls]⟩
  have hremove : ∀ path, Ensures (Balanced w) (removeStale path) (fun _ d => Balanced w d)
      (Accruing w) := by
    intro path
    refine change_balanced fun fs => ?_
    split
    · next fs' hok => exact OnlyNodes.unlink hok
    · exact .refl fs
    · exact .refl fs
  unfold resetWorkspace
  exact hclear.bind fun _ => (change_balanced fun fs => OnlyNodes.makeDir fs c.workDir true).bind
    fun _ => (hremove _).bind fun _ => hremove _

theorem writeFile_balanced (path : String) (data : ByteArray) :
    Ensures (Balanced w) (change fun fs => fs.writeFile path data) (fun _ d => Balanced w d)
      (Accruing w) :=
  change_balanced fun fs => OnlyNodes.writeFile fs path data

theorem formatStage_balanced :
    Ensures (Balanced w) (formatStage w) (fun _ d => Balanced w d) (Accruing w) := by
  unfold formatStage
  refine (moveTo_balanced .format).bind fun _ => .bind_get fun d₀ => ?_
  refine Ensures.bind ((writeFile_balanced _ _).weaken fun _ hd => hd.2) fun _ => ?_
  refine (invoke_balanced .format _).bind fun failure => ?_
  cases failure with
  | some f => exact .pure fun _ hd => hd
  | none =>
    refine (readFile_balanced _).bind fun result => ?_
    cases result with
    | error e => exact .abort fun _ hd => hd.toAccruing
    | ok bytes =>
      cases htext : Text.ofUtf8? bytes with
      | none =>
        simp only [htext]
        exact .pure fun _ hd => hd
      | some text =>
        simp only [htext]
        have hmodify : Ensures (Balanced w) (modify fun d => { d with source := text })
            (fun _ d => Balanced w d) (Accruing w) :=
          .modify fun _ hd => ⟨⟨⟨hd.stdout, hd.stderr, hd.told, hd.drained⟩, hd.unsettled⟩,
            hd.empty, hd.ended⟩
        exact hmodify.bind fun _ => (emit_balanced rfl).bind fun _ => .pure fun _ hd => hd

theorem compileStage_balanced (imports : List String) (m : Manifest) :
    Ensures (Balanced w) (compileStage w imports m) (fun _ d => Balanced w d) (Accruing w) := by
  unfold compileStage
  refine (moveTo_balanced .compile).bind fun _ => (writeFile_balanced _ _).bind fun _ => ?_
  refine (invoke_balanced .compile _).bind fun failure => ?_
  cases failure with
  | some f => exact .pure fun _ hd => hd
  | none =>
    refine .bind_get fun d₀ => ?_
    split
    · exact .pure fun _ hd => hd.2
    · exact .pure fun _ hd => hd.2

theorem linkStage_balanced (imports : List String) (m : Manifest) :
    Ensures (Balanced w) (linkStage w imports m) (fun _ d => Balanced w d) (Accruing w) := by
  unfold linkStage
  refine (moveTo_balanced .link).bind fun _ => (writeFile_balanced _ _).bind fun _ => ?_
  refine (invoke_balanced .link _).bind fun failure => ?_
  cases failure with
  | some f => exact .pure fun _ hd => hd
  | none =>
    refine (readFile_balanced _).bind fun result => ?_
    split
    · exact .pure fun _ hd => hd
    · exact .pure fun _ hd => hd
    · exact .abort fun _ hd => hd.toAccruing

/-- A frame has no part in the accounts. -/
theorem frameStage_balanced (module : ByteArray) :
    Ensures (Balanced w) (frameStage w module) (fun _ d => Balanced w d) (Accruing w) := by
  have hreport : ∀ {d : Draft World}, Balanced w d → ∀ world patience frames, Balanced w { d with
      world := world, gate := d.gate.emit (.frameCreated module.size), patience := patience
      frames := frames } := by
    intro d hd world patience frames
    rw [Gate.emit_of_unsettled hd.unsettled]
    have hreported : Accounted w { d with
        gate := { d.gate with passed := d.gate.passed ++ [.frameCreated module.size] } } :=
      hd.report (by simp [Event.isTold]) rfl
    exact ⟨⟨⟨hreported.stdout, hreported.stderr, hreported.told, hreported.drained⟩,
      hd.unsettled⟩, hd.empty, hd.ended⟩
  exact .frameStage (fun d signals world patience hd _ _ _ => hreport hd world patience _)
    (fun d signals world patience hd _ => (hreport hd world patience _).toAccruing)
    fun d e world hd _ => ⟨⟨hd.stdout, hd.stderr, hd.told, hd.drained⟩, hd.unsettled⟩

/-- The accounts are kept over all stages, and are settled when a session comes to its end. -/
theorem stages_balanced (kind : Kind) (manifest : Option Manifest) :
    Ensures (fun d : Draft World => Accruing w d ∧ d.calls = []) (stages w kind manifest)
      (fun _ d => Balanced w d) (Accruing w) := by
  unfold stages
  refine (resetWorkspace_balanced w.config).bind fun _ => ?_
  refine formatStage_balanced.bind fun failure => ?_
  cases failure with
  | some f => exact .pure fun _ hd => hd
  | none =>
    dsimp only
    split
    · exact .pure fun _ hd => hd
    refine .bind_get fun d₀ => ?_
    refine Ensures.bind ((compileStage_balanced _ _).weaken fun _ hd => hd.2) fun failure => ?_
    cases failure with
    | some f => exact .pure fun _ hd => hd
    | none =>
      refine (linkStage_balanced _ _).bind fun result => ?_
      cases result with
      | error f => exact .pure fun _ hd => hd
      | ok module => exact (frameStage_balanced module).bind fun _ => .pure fun _ hd => hd

end Stages

/-! ## The law -/

/-- These operations are what a tool has done in a run, and none of them empties a buffer. -/
structure ToolCall.Does (call : ToolCall) (ops : List Operation) : Prop where
  acts : FileSystem.Acts call.before ops call.after
  keeps : ∀ op ∈ ops, op.keepsOutput = true

/-- What a session says of the output of its tools, each of which has done certain operations. -/
structure AccountLaw (w : Workshop World) (deeds : ToolCall → List Operation) (session : Session)
    (d : Draft World) : Prop where
  /-- The text of the session is what its events carry, in order. -/
  stdout : session.stdout = String.join (d.gate.passed.map Event.stdout)
  stderr : session.stderr = String.join (d.gate.passed.map Event.stderr)
  /-- For each run that came to its end and in which anything was written there is one event, with
      what was written in that run; and there is no other. -/
  reported : d.gate.passed.filter Event.isOutput =
    (d.calls.filter ToolCall.ended).flatMap fun call => Event.ofWritten call.tool
      (Operation.writtenBy 1 (deeds call)) (Operation.writtenBy 2 (deeds call))
  /-- Diagnostics are found in what such a run has written. -/
  diagnosed : ∀ tool found, .diagnostics tool found ∈ d.gate.passed → ∃ call ∈ d.calls,
    call.ended = true ∧ call.tool = tool ∧
      found = (Diagnostic.parse (Text.ofUtf8Lossy (Operation.writtenBy 2 (deeds call)))).filter
        (·.refersTo w.config.sourcePath)
  /-- Where a run did not come to its end the session was timed out, and says nothing of it. -/
  cut : ∀ call ∈ d.calls, call.ended = false → session.outcome = .timedOut
  drained : Drained d.fs

theorem Event.ofOutput_lossy (tool : Tool) (out err : ByteArray) :
    Event.ofOutput tool (Text.ofUtf8Lossy out) (Text.ofUtf8Lossy err) =
      Event.ofWritten tool out err := by
  have hquiet : ((Text.ofUtf8Lossy out).isEmpty && (Text.ofUtf8Lossy err).isEmpty) = true ↔
      out.size = 0 ∧ err.size = 0 := by
    rw [Bool.and_eq_true, Text.ofUtf8Lossy_isEmpty, Text.ofUtf8Lossy_isEmpty]
  unfold Event.ofOutput Event.ofWritten
  simp only [hquiet]

/-- A tool that began with empty buffers has left in them what it has written. -/
theorem ToolCall.Does.after {call : ToolCall} {ops : List Operation} (h : call.Does ops)
    (hbefore : Drained call.before) : call.after.stdout = Operation.writtenBy 1 ops ∧
      call.after.stderr = Operation.writtenBy 2 ops := by
  have hadds := h.acts.adds h.keeps
  rw [hadds.stdout, hadds.stderr, hbefore.stdout, hbefore.stderr]
  exact ⟨ByteArray.empty_append, ByteArray.empty_append⟩

/-- The events with output that are told of runs. -/
theorem filter_isOutput_told {path : String} {deeds : ToolCall → List Operation}
    {calls : List ToolCall} (hdrained : ∀ call ∈ calls, Drained call.before)
    (hdeeds : ∀ call ∈ calls, call.ended = true → call.Does (deeds call)) :
    (calls.flatMap (·.told path)).filter Event.isOutput =
      (calls.filter ToolCall.ended).flatMap fun call => Event.ofWritten call.tool
        (Operation.writtenBy 1 (deeds call)) (Operation.writtenBy 2 (deeds call)) := by
  induction calls with
  | nil => rfl
  | cons call calls ih =>
    have hrest := ih (fun other hother => hdrained other (List.mem_cons_of_mem call hother))
      fun other hother => hdeeds other (List.mem_cons_of_mem call hother)
    rw [List.flatMap_cons, List.filter_append, hrest]
    cases hended : call.ended with
    | false =>
      rw [ToolCall.told_of_not_ended hended, List.filter_cons_of_neg (by simp [hended])]
      rfl
    | true =>
      obtain ⟨hout, herr⟩ :=
        (hdeeds call List.mem_cons_self hended).after (hdrained call List.mem_cons_self)
      obtain ⟨status, left, hrun⟩ := ToolCall.ended_iff.1 hended
      have hwritten : (Event.ofWritten call.tool call.after.stdout call.after.stderr).filter
          Event.isOutput = Event.ofWritten call.tool call.after.stdout call.after.stderr := by
        unfold Event.ofWritten
        split <;> rfl
      have hfailure : (Event.ofFailure call.tool (verdict path call.tool
          (Text.ofUtf8Lossy call.after.stderr) status)).filter Event.isOutput = [] :=
        List.filter_eq_nil_iff.2 fun event hevent => by
          simp [Event.isOutput_of_mem_ofFailure hevent]
      rw [List.filter_cons_of_pos hended, List.flatMap_cons, ← hout, ← herr]
      simp only [ToolCall.told, hrun]
      rw [List.filter_append, Event.ofOutput_lossy, hwritten, hfailure, List.append_nil]

/-- Diagnostics that are told of a run are those in what the tool has written. -/
theorem ToolCall.diagnosed {path : String} {call : ToolCall} {tool : Tool}
    {found : List Diagnostic} (h : .diagnostics tool found ∈ call.told path) :
    call.ended = true ∧ call.tool = tool ∧
      found = (Diagnostic.parse (Text.ofUtf8Lossy call.after.stderr)).filter (·.refersTo path) := by
  unfold ToolCall.told at h
  split at h
  · next status left hrun =>
    refine ⟨ToolCall.ended_iff.2 ⟨status, left, hrun⟩, ?_⟩
    rcases List.mem_append.1 h with h | h
    · unfold Event.ofOutput at h
      split at h
      · cases h
      · cases List.mem_singleton.1 h
    · cases hverdict : verdict path call.tool (Text.ofUtf8Lossy call.after.stderr) status with
      | none =>
        rw [hverdict] at h
        cases h
      | some f =>
        rw [hverdict] at h
        simp only [Event.ofFailure] at h
        split at h
        · cases h
        · cases List.mem_singleton.1 h
          exact ⟨rfl, (verdict_eq_some hverdict).2⟩
  · cases h

/-- The accounts of a session that has settled. -/
theorem Accounted.obeys {w : Workshop World} {d : Draft World} (h : Accounted w d)
    {deeds : ToolCall → List Operation}
    (hdeeds : ∀ call ∈ d.calls, call.ended = true → call.Does (deeds call)) {session : Session}
    (hout : session.stdout = d.stdout) (herr : session.stderr = d.stderr)
    (hcut : ∀ call ∈ d.calls, call.ended = false → session.outcome = .timedOut)
    (hdrained : Drained d.fs) : AccountLaw w deeds session d where
  stdout := hout.trans h.stdout
  stderr := herr.trans h.stderr
  reported := by
    have htold : d.gate.passed.filter Event.isOutput =
        (d.gate.passed.filter Event.isTold).filter Event.isOutput := by
      rw [List.filter_filter]
      refine List.filter_congr fun event _ => ?_
      cases event <;> rfl
    rw [htold, h.told]
    exact filter_isOutput_told h.drained hdeeds
  diagnosed tool found hfound := by
    have htold : .diagnostics tool found ∈ d.gate.passed.filter Event.isTold :=
      List.mem_filter.2 ⟨hfound, rfl⟩
    rw [h.told, List.mem_flatMap] at htold
    obtain ⟨call, hcall, hmem⟩ := htold
    obtain ⟨hended, htool, hdiagnosed⟩ := ToolCall.diagnosed hmem
    rw [((hdeeds call hcall hended).after (h.drained call hcall)).2] at hdiagnosed
    exact ⟨call, hcall, hended, htool, hdiagnosed⟩
  cut := hcut
  drained := hdrained

/-- What is in the buffers when a session begins is dropped before anything else happens. -/
theorem conduct_of_buffers (w : Workshop World) (kind : Kind) (manifest : Option Manifest)
    (source : String) (fs : FileSystem) (world : World) (out err : ByteArray) :
    conduct w kind manifest source { fs with stdout := out, stderr := err } world =
      conduct w kind manifest source fs world := by
  have hstages : ∀ patience,
      Step.on (stages w kind manifest)
          (Draft.start kind source patience { fs with stdout := out, stderr := err } world) =
        Step.on (stages w kind manifest) (Draft.start kind source patience fs world) := by
    intro patience
    unfold stages resetWorkspace
    simp only [Step.on_bind, Step.on_modify]
    rfl
  have hrun := hstages (1000 * w.config.timeoutSeconds)
  unfold Step.on at hrun
  unfold conduct
  dsimp only
  rw [hrun]

/-- Tools of which the formatter has something to say, and the compiler does not come to its end. -/
def talkative : Toolchain Unit where
  run mount tool _ patience fs world :=
    match tool with
    | .format =>
      (.exited 0 patience, (fs.perform mount world (.write 1 "a".toUTF8 none)).2.1, world)
    | _ => (.running, (fs.perform mount world (.write 2 "b".toUTF8 none)).2.1, world)

/-- A workshop with these tools, and without assets and frames. -/
def talkativeWorkshop : Workshop Unit :=
  ⟨.default, none, talkative, ⟨fun _ _ world => (.error (.create "none"), world)⟩⟩

/-- A session in it, which begins with what an earlier one has left in the buffers. -/
def talkativeSession : Except Error Session × Draft Unit :=
  conduct talkativeWorkshop .run (some ⟨[]⟩) "package main\n"
    { FileSystem.empty ⟨0, 0⟩ with stdout := "old".toUTF8, stderr := "older".toUTF8 } ()

end Session

end Workbench
