import Workbench.Proofs.DiagnosticLines
import Workbench.Proofs.ManifestLog
import Workbench.Proofs.ScratchCopies
import Workbench.Proofs.TraceLaw
import Workbench.Proofs.WholeFiles
import Workbench.Session.Script

set_option autoImplicit false

/-! # The source and what it is replaced by

A session begins with the source that was submitted. It replaces it once at most, after the
formatter has passed, by the text that is then read in the place of the source; the event that
reports the text, the source of the session and the import configurations for the later tools all
come from this one text. If the formatter does not pass, the session fails there and nothing is
replaced. The place of the source is read through the mount, so where the formatter has left nothing
and the place is that of an asset, the text is the asset's. -/

namespace Workbench

/-! ## What is at a path -/

namespace FileSystem

variable {World : Type} {fs fs' : FileSystem} {p : Path} {text : String} {data bytes : ByteArray}

/-- A text leads to a file with these bytes. -/
def FileAt (fs : FileSystem) (text : String) (bytes : ByteArray) : Prop :=
  ∃ p, fs.resolve text = .ok p ∧ fs.bytesAt p = some bytes

/-- What is found where a text leads: the bytes of the file that is there or, if nothing is there
    and an asset belongs there, those that are fetched for it. -/
inductive Found (mount : Option (Asset.Mount World)) (fs : FileSystem) (text : String)
    (bytes : ByteArray) : Prop where
  | there : fs.FileAt text bytes → Found mount fs text bytes
  | fetched {p : Path} {m : Asset.Mount World} {world world' : World} :
      fs.resolve text = .ok p → fs.find? p = none → mount = some m → p.trailing = false →
      m.covers p = true → m.fetch world p.toString = (.ok bytes, world') →
      Found mount fs text bytes

theorem FileAt.unique (h : fs.FileAt text data) (h' : fs.FileAt text bytes) : data = bytes := by
  obtain ⟨p, hp, hdata⟩ := h
  obtain ⟨q, hq, hbytes⟩ := h'
  cases hp.symm.trans hq
  exact Option.some.inj (hdata.symm.trans hbytes)

/-- Nothing else is found where there is a file. -/
theorem Found.eq_of_fileAt {mount : Option (Asset.Mount World)} (h : Found mount fs text data)
    (hfile : fs.FileAt text bytes) : data = bytes := by
  cases h with
  | there hthere => exact hthere.unique hfile
  | @fetched p m world world' hp hfree _ hspelled =>
    obtain ⟨q, hq, hbytes⟩ := hfile
    cases hp.symm.trans hq
    have hsome := find?_isSome_of_bytesAt (by rw [hbytes]; rfl) hspelled
    rw [hfree] at hsome
    cases hsome

/-- A file that was put is there, also in the place of the root. -/
theorem bytesAt_of_placeFile (hok : fs.placeFile p data = (.ok (), fs')) :
    fs'.bytesAt p = some data := by
  unfold placeFile at hok
  rcases hmade : fs.makeParents p with ⟨e | _, fs₁⟩ <;> rw [hmade] at hok <;> cases hok
  have hlink : ∀ parent, p.parent? = some parent → p.fileKey ≠ parent.dirKey := by
    intro parent hparent
    obtain ⟨habove, hne⟩ := parent?_above hparent
    refine Path.fileKey_ne_dirKey (fun hroot => hne ?_) parent
    rw [hroot] at habove ⊢
    exact List.prefix_nil.1 habove
  rw [putFile, bytesAt_congr (get?_link hlink), bytesAt_eq_some_iff]
  exact ⟨_, by rw [put, Dictionary.get?_put, if_pos rfl]⟩

/-- A text leads to what was written there. -/
theorem fileAt_of_writeFile (hok : fs.writeFile text data = (.ok (), fs')) :
    fs'.FileAt text data := by
  have hnodes := OnlyNodes.writeFile fs text data
  rw [hok] at hnodes
  unfold writeFile at hok
  cases hp : fs.resolve text with
  | error e =>
    rw [hp] at hok
    cases hok
  | ok p =>
    simp only [hp] at hok
    split at hok
    · cases hok
    · exact ⟨p, (hnodes.resolve text).trans hp, bytesAt_of_placeFile hok⟩

/-- Fetching changes nothing, or puts the bytes that were fetched where nothing was. -/
theorem of_populate_eq_ok {mount : Option (Asset.Mount World)} {world world' : World}
    (hok : populate mount fs world p = (.ok (), fs', world')) : fs' = fs ∨
      ∃ m bytes world₁, fs.find? p = none ∧ mount = some m ∧ p.trailing = false ∧
        m.covers p = true ∧ m.fetch world p.toString = (.ok bytes, world₁) ∧
        fs'.bytesAt p = some bytes := by
  unfold populate at hok
  split at hok
  · cases hok
    exact Or.inl rfl
  next hfree =>
  split at hok
  · cases hok
    exact Or.inl rfl
  next m =>
  split at hok
  · cases hok
    exact Or.inl rfl
  next hasset =>
  split at hok
  · next bytes world₁ hfetch =>
    rw [Bool.or_eq_true, not_or, Bool.not_eq_true, Bool.not_eq_true, Bool.not_eq_false'] at hasset
    have hplaced : fs.placeFile p bytes = (.ok (), fs') :=
      Prod.ext (Prod.mk.inj hok).1 (Prod.mk.inj (Prod.mk.inj hok).2).1
    exact Or.inr ⟨m, bytes, world₁, Option.not_isSome_iff_eq_none.1 hfree, rfl, hasset.1,
      hasset.2, hfetch, bytesAt_of_placeFile hplaced⟩
  · cases hok
    exact Or.inl rfl
  · cases hok

/-- What is read is found there. -/
theorem found_of_readAll {mount : Option (Asset.Mount World)} {world : World}
    (hread : (fs.readAll mount world text).1 = .ok bytes) : Found mount fs text bytes := by
  obtain ⟨p, hp, fs₁, world₁, times, hpopulate, hfile⟩ := (readAll_eq_ok_iff _ _ _ _ _).1 hread
  have hbytes := file_eq_ok hfile
  rcases of_populate_eq_ok hpopulate with
    rfl | ⟨m, data, world₂, hfree, hmount, hspelled, hcovers, hfetch, hdata⟩
  · exact .there ⟨p, hp, hbytes⟩
  · obtain rfl := Option.some.inj (hdata.symm.trans hbytes)
    exact .fetched hp hfree hmount hspelled hcovers hfetch

/-- What is in the output buffers is not found. -/
theorem Found.of_clearOutput {mount : Option (Asset.Mount World)}
    (h : Found mount fs.clearOutput text bytes) : Found mount fs text bytes := by
  cases h with
  | there hfile => exact .there hfile
  | fetched hp hfree hmount hspelled hcovers hfetch =>
    exact .fetched hp hfree hmount hspelled hcovers hfetch

/-- A file that is there is read. -/
theorem FileAt.readAll (h : fs.FileAt text bytes) (mount : Option (Asset.Mount World))
    (world : World) : (fs.readAll mount world text).1 = .ok bytes := by
  obtain ⟨p, hp, hbytes⟩ := h
  obtain ⟨times, hread⟩ := readAll_of_bytesAt hp hbytes mount world
  rw [hread]

end FileSystem

/-! ## Diagnostics in blank text -/

/-- In a line that is read as a diagnostic something can be seen. -/
theorem Diagnostic.visible_of_parseLine {raw : List Char} {d : Diagnostic}
    (h : parseLine raw = some d) : Text.Visible raw := by
  obtain ⟨hpath, ⟨first, hfirst, hvisible⟩, -⟩ := parseLine_eq_some_iff.1 h
  refine ⟨first, ?_, hvisible⟩
  have hmem : first ∈ (Text.trimEnd raw).takeWhile (· ≠ ':') := hpath ▸ List.mem_of_head? hfirst
  exact Text.mem_of_mem_trimEnd (List.takeWhile_subset _ hmem)

/-- There are no diagnostics in a text in which nothing can be seen. -/
theorem Diagnostic.parse_of_blank {output : String} (h : Text.trim output.toList = []) :
    parse output = [] := by
  rw [parse, List.filterMap_eq_nil_iff]
  intro line hline
  rw [Option.eq_none_iff_forall_ne_some]
  intro d hd
  obtain ⟨c, hc, hvisible⟩ := visible_of_parseLine hd
  exact Text.trim_eq_nil_iff.1 h ⟨c, (Text.mem_of_mem_lines hline hc).1, hvisible⟩

namespace Session

open FileSystem (FileAt Found)

variable {World : Type}

/-! ## Runs of tools -/

/-- The text in the event that the source has been formatted. -/
def Event.formatted? : Event → Option String
  | .formatted text => some text
  | _ => none

/-- The failure of a stage is told by a run of its tool. -/
structure ToolCall.Explains (path : String) (call : ToolCall) (f : Failure) : Prop where
  ended : call.ended = true
  tool : call.tool = f.stage
  /-- The diagnostics are those in what the tool wrote to its standard error that are about the
      source. -/
  diagnostics : f.diagnostics =
    (Diagnostic.parse (Text.ofUtf8Lossy call.after.stderr)).filter (·.refersTo path)

/-- A run of the formatter that passed, after which a text was found in the place of the source. -/
structure ToolCall.Formats (w : Workshop World) (call : ToolCall) (text : String) : Prop where
  tool : call.tool = .format
  passed : call.Passed
  found : Found w.mount call.after w.config.sourcePath text.toUTF8

/-- A run of the formatter that came to its end and is no success: by its status, by what it wrote
    to its standard error, or because what it left in the place of the source is no text. -/
def ToolCall.Botched (path : String) (call : ToolCall) : Prop :=
  call.tool = .format ∧ ∃ status left, call.run = .exited status left ∧
    (status ≠ 0 ∨ Text.trim (Text.ofUtf8Lossy call.after.stderr).toList ≠ [] ∨
      ∃ bytes, call.after.FileAt path bytes ∧ Text.ofUtf8? bytes = none)

/-- A run of the compiler or the linker that was given the import configuration for the imports of
    a text. -/
def ToolCall.Configured (c : Config) (m : Manifest) (text : String) (call : ToolCall) : Prop :=
  (call.tool = .compile ∧ call.before.FileAt c.compileConfigPath
    (ImportConfig.compile (Source.imports text) m).toText.toUTF8) ∨
  (call.tool = .link ∧ call.before.FileAt c.linkConfigPath
    (ImportConfig.link (Source.imports text) m c.mainArchivePath c.linkScope).toText.toUTF8)

theorem ToolCall.not_botched_of_not_ended {path : String} {call : ToolCall}
    (h : call.ended = false) : ¬ call.Botched path := by
  rintro ⟨-, status, left, hrun, -⟩
  rw [ToolCall.ended_iff.2 ⟨status, left, hrun⟩] at h
  cases h

/-- A run of the formatter that passed is botched only by bytes that are no text. -/
theorem ToolCall.Passed.not_botched {path : String} {call : ToolCall} (h : call.Passed)
    (htext : ∀ bytes, call.after.FileAt path bytes → Text.ofUtf8? bytes ≠ none) :
    ¬ call.Botched path := by
  obtain ⟨⟨left, hrun⟩, hquiet⟩ := h
  rintro ⟨-, status, left', hrun', hstatus | hloud | ⟨bytes, hbytes, hnone⟩⟩
  · cases hrun.symm.trans hrun'
    exact hstatus rfl
  · exact hloud hquiet
  · exact htext bytes hbytes hnone

theorem ToolCall.Formats.not_botched {w : Workshop World} {call : ToolCall} {text : String}
    (h : call.Formats w text) : ¬ call.Botched w.config.sourcePath := by
  refine h.passed.not_botched fun bytes hbytes => ?_
  rw [← h.found.eq_of_fileAt hbytes, Text.ofUtf8?_eq_some_iff.2 rfl]
  simp

/-- The failure that a tool's own words and status make is told by its run. -/
theorem ToolCall.explains_of_verdict {path : String} {call : ToolCall} {status : Int} {left : Nat}
    {f : Failure} (hrun : call.run = .exited status left)
    (hverdict : verdict path call.tool (Text.ofUtf8Lossy call.after.stderr) status = some f) :
    call.Explains path f := by
  obtain ⟨hstage, hdiagnostics⟩ := verdict_eq_some hverdict
  exact ⟨ToolCall.ended_iff.2 ⟨status, left, hrun⟩, hstage.symm, hdiagnostics⟩

/-- A failure without diagnostics is told by a run that passed. -/
theorem ToolCall.Passed.explains {path : String} {call : ToolCall} (h : call.Passed)
    (message : String) : call.Explains path ⟨call.tool, message, []⟩ := by
  obtain ⟨⟨left, hrun⟩, hquiet⟩ := h
  refine ⟨ToolCall.ended_iff.2 ⟨0, left, hrun⟩, rfl, ?_⟩
  rw [Diagnostic.parse_of_blank hquiet]
  rfl

/-- What a run of a tool makes of its stage: nothing if it passed, and otherwise a failure that is
    told by the run. -/
def ToolCall.Judged (path : String) (call : ToolCall) : Option Failure → Prop
  | none => call.Passed
  | some f => call.Explains path f

/-- Runs of tools in a session whose source was replaced: the formatter has given the text, and all
    later runs were given configurations for its imports. -/
def Edits (w : Workshop World) (manifest : Option Manifest) (text : String)
    (calls : List ToolCall) : Prop :=
  ∃ first later, calls = first :: later ∧ first.Formats w text ∧
    ∀ call ∈ later, ∃ m, manifest = some m ∧ call.Configured w.config m text

theorem Edits.concat {w : Workshop World} {manifest : Option Manifest} {text : String}
    {calls : List ToolCall} (h : Edits w manifest text calls) {m : Manifest}
    (hm : manifest = some m) {call : ToolCall} (hcall : call.Configured w.config m text) :
    Edits w manifest text (calls ++ [call]) := by
  obtain ⟨first, later, rfl, hfirst, hlater⟩ := h
  refine ⟨first, later ++ [call], List.cons_append, hfirst, fun other hother => ?_⟩
  rcases List.mem_append.1 hother with hother | hother
  · exact hlater other hother
  · rw [List.mem_singleton.1 hother]
    exact ⟨m, hm, hcall⟩

/-- No run among them was botched. -/
theorem Edits.not_botched {w : Workshop World} {manifest : Option Manifest} {text : String}
    {calls : List ToolCall} (h : Edits w manifest text calls) {call : ToolCall}
    (hcall : call ∈ calls) : ¬ call.Botched w.config.sourcePath := by
  obtain ⟨first, later, rfl, hfirst, hlater⟩ := h
  rcases List.mem_cons.1 hcall with rfl | hcall
  · exact hfirst.not_botched
  · obtain ⟨m, -, hconfigured⟩ := hlater call hcall
    rintro ⟨htool, -⟩
    rcases hconfigured with ⟨hother, -⟩ | ⟨hother, -⟩
    · cases htool.symm.trans hother
    · cases htool.symm.trans hother

/-! ## The draft between stages -/

/-- The texts that a gate has let pass as formatted. -/
def Gate.texts (g : Gate) : List String := g.passed.filterMap Event.formatted?

/-- A session goes on with a source, has reported these texts as formatted, and has run these
    tools. -/
structure Sourced (source : String) (texts : List String) (calls : List ToolCall)
    (d : Draft World) : Prop where
  source : d.source = source
  unsettled : d.gate.isSettled = false
  texts : d.gate.texts = texts
  calls : d.calls = calls

theorem Gate.texts_emit {g : Gate} (h : g.isSettled = false) (event : Event) :
    (g.emit event).texts = g.texts ++ event.formatted?.toList := by
  rw [emit_of_unsettled h, texts, texts, List.filterMap_append]
  cases event <;> rfl

/-- A tool's words do not bring a formatted text. -/
theorem Gate.texts_spoken {g g' : Gate} {tool : Tool} (h : g.isSettled = false)
    (hspoken : Spoken tool g g') : g'.isSettled = false ∧ g'.texts = g.texts := by
  obtain ⟨events, hevents, rfl⟩ := hspoken
  have hnone : events.filterMap Event.formatted? = [] := by
    refine List.filterMap_eq_nil_iff.2 fun event hevent => ?_
    rcases hevents event hevent with ⟨out, err, rfl⟩ | ⟨found, rfl⟩
    · rfl
    · rfl
  rw [foldl_emit_of_unsettled h, texts, texts, List.filterMap_append, hnone, List.append_nil]
  exact ⟨h, rfl⟩

/-- Neither does settling. -/
theorem Gate.texts_settle {g : Gate} (h : g.isSettled = false) (state : State)
    {extra : Option Event} (hextra : extra.bind Event.formatted? = none) :
    (g.settle state extra).2.texts = g.texts := by
  rw [settle_of_unsettled h, texts, texts, List.filterMap_append]
  cases extra with
  | none => exact List.append_nil _
  | some event =>
    have hevent : event.formatted? = none := hextra
    rw [Option.toList_some, List.filterMap_cons, List.filterMap_cons, hevent]
    exact List.append_nil _

section Stages

variable {w : Workshop World} {manifest : Option Manifest} {source text : String}
  {texts : List String} {calls : List ToolCall} {m : Manifest}

theorem moveTo_sourced (tool : Tool) {stop : Draft World → Prop} :
    Ensures (Sourced source texts calls) (moveTo (stageOf tool))
      (fun _ d => Sourced source texts calls d) stop := by
  refine .moveTo fun d hd => ?_
  rw [Gate.transition_of_unsettled hd.unsettled (by cases tool <;> rfl)]
  refine ⟨hd.source, hd.unsettled, ?_, hd.calls⟩
  rw [← hd.texts, Gate.texts, Gate.texts, List.filterMap_append]
  exact List.append_nil _

theorem change_sourced (act : FileSystem → Except FileSystem.Error Unit × FileSystem) :
    Ensures (fun d : Draft World => Sourced source texts calls d) (change act)
      (fun _ d => Sourced source texts calls d) (Sourced source texts calls) :=
  .change (fun _ _ hd _ => ⟨hd.source, hd.unsettled, hd.texts, hd.calls⟩)
    fun _ _ _ hd _ => ⟨hd.source, hd.unsettled, hd.texts, hd.calls⟩

/-- What is written is there for the tool that is run next. -/
theorem writeFile_sourced (path : String) (data : ByteArray) :
    Ensures (fun d : Draft World => Sourced source texts calls d)
      (change fun fs => fs.writeFile path data)
      (fun _ d => Sourced source texts calls d ∧ d.fs.FileAt path data)
      (Sourced source texts calls) :=
  .change (fun _ _ hd hok => ⟨⟨hd.source, hd.unsettled, hd.texts, hd.calls⟩,
      FileSystem.fileAt_of_writeFile hok⟩)
    fun _ _ _ hd _ => ⟨hd.source, hd.unsettled, hd.texts, hd.calls⟩

/-- What is read after a run is what the run has left, or what is found in its stead. -/
theorem readFile_sourced (left : FileSystem) (path : String) {stop : Draft World → Prop} :
    Ensures (fun d => d.fs = left.clearOutput ∧ Sourced source texts calls d) (readFile w path)
      (fun result d => Sourced source texts calls d ∧
        (∀ bytes, left.FileAt path bytes → result = .ok bytes) ∧
        ∀ bytes, result = .ok bytes → Found w.mount left path bytes) stop := by
  refine .readFile fun d result fs world hd hread => ?_
  obtain ⟨hleft, hsource, hopen, htexts, hcalls⟩ := hd
  have hresult : (left.clearOutput.readAll w.mount d.world path).1 = result := by
    rw [← hleft, hread]
  refine ⟨⟨hsource, hopen, htexts, hcalls⟩, fun bytes hfile => ?_, fun bytes hok => ?_⟩
  · have hthere : left.clearOutput.FileAt path bytes := hfile
    rw [← hresult, hthere.readAll]
  · rw [hok] at hresult
    exact (FileSystem.found_of_readAll hresult).of_clearOutput

/-- Running a tool adds a run to those before it, with a file in place that was there. -/
theorem invoke_sourced (tool : Tool) (args : List String) (path : String) (data : ByteArray)
    {stop : Draft World → Prop} (hstop : ∀ d (call : ToolCall), call.tool = tool →
      call.before.FileAt path data → call.ended = false →
      Sourced source texts (calls ++ [call]) d → stop d) :
    Ensures (fun d => Sourced source texts calls d ∧ d.fs.FileAt path data) (invoke w tool args)
      (fun failure d => ∃ call : ToolCall, call.tool = tool ∧ call.before.FileAt path data ∧
        call.Judged w.config.sourcePath failure ∧ d.fs = call.after.clearOutput ∧
        Sourced source texts (calls ++ [call]) d) stop := by
  refine .invoke_heard (fun d status left fs world hd _ => ?_) fun d run fs world hd _ hcut => ?_
  · obtain ⟨⟨hsource, hopen, htexts, hcalls⟩, hfile⟩ := hd
    let call : ToolCall := ⟨tool, args, d.fs.clearOutput, .exited status left, fs⟩
    obtain ⟨hsettled, hsame⟩ := Gate.texts_spoken hopen
      ⟨call.told w.config.sourcePath, fun _ => ToolCall.mem_told, rfl⟩
    refine ⟨call, rfl, hfile, ?_, rfl, hsource, hsettled, hsame.trans htexts, by rw [← hcalls]; rfl⟩
    cases hverdict : verdict w.config.sourcePath tool (Text.ofUtf8Lossy fs.stderr) status with
    | none =>
      obtain ⟨rfl, hquiet⟩ := verdict_eq_none_iff.1 hverdict
      exact ⟨⟨left, rfl⟩, hquiet⟩
    | some f => exact ToolCall.explains_of_verdict rfl hverdict
  · obtain ⟨⟨hsource, hopen, htexts, hcalls⟩, hfile⟩ := hd
    refine hstop _ ⟨tool, args, d.fs.clearOutput, run, fs⟩ rfl hfile ?_
      ⟨hsource, hopen, htexts, by rw [← hcalls]⟩
    rw [Bool.eq_false_iff]
    intro hended
    obtain ⟨status, left, hrun⟩ := ToolCall.ended_iff.1 hended
    exact hcut status left hrun

theorem resetWorkspace_sourced (c : Config) :
    Ensures (fun d : Draft World => Sourced source texts calls d) (resetWorkspace c)
      (fun _ d => Sourced source texts calls d) (Sourced source texts calls) := by
  have hclear : Ensures (fun d : Draft World => Sourced source texts calls d)
      (modify fun d => { d with fs := d.fs.clearOutput })
      (fun _ d => Sourced source texts calls d) (Sourced source texts calls) :=
    .modify fun _ hd => ⟨hd.source, hd.unsettled, hd.texts, hd.calls⟩
  unfold resetWorkspace removeStale
  exact hclear.bind fun _ => (change_sourced _).bind fun _ => (change_sourced _).bind fun _ =>
    change_sourced _

/-- A session that stops while its source is the submitted one: it has run no tool but the
    formatter, and no run of that was botched. -/
def Spared (w : Workshop World) (submitted : String) (d : Draft World) : Prop :=
  ∃ calls, Sourced submitted [] calls d ∧
    ∀ call ∈ calls, call.tool = .format ∧ ¬ call.Botched w.config.sourcePath

/-- A session that stops after its source was replaced. -/
def Replaced (w : Workshop World) (manifest : Option Manifest) (d : Draft World) : Prop :=
  ∃ text calls, Edits w manifest text calls ∧ Sourced text [text] calls d

/-- A text that is taken over as the source is reported. -/
theorem takeOver_sourced (text : String) {stop : Draft World → Prop} :
    Ensures (Sourced source texts calls)
      (do
        modify fun d => { d with source := text }
        emit (.formatted text)
        return (none : Option Failure))
      (fun failure d => failure = none ∧ Sourced text (texts ++ [text]) calls d) stop := by
  have hmodify : Ensures (Sourced source texts calls) (modify fun d => { d with source := text })
      (fun _ d => Sourced text texts calls d) stop :=
    .modify fun _ hd => ⟨rfl, hd.unsettled, hd.texts, hd.calls⟩
  have hemit : Ensures (fun d : Draft World => Sourced text texts calls d) (emit (.formatted text))
      (fun _ d => Sourced text (texts ++ [text]) calls d) stop := by
    refine .emit fun d hd => ⟨hd.source, ?_, ?_, hd.calls⟩
    · rw [Gate.emit_of_unsettled hd.unsettled]
      exact hd.unsettled
    · rw [Gate.texts_emit hd.unsettled, hd.texts]
      rfl
  exact hmodify.bind fun _ => hemit.bind fun _ => .pure fun _ hd => ⟨rfl, hd⟩

/-- The source is replaced by what is found after the formatter has passed. A failure is that of its
    run, and the source stays as it was. -/
theorem formatStage_sourced :
    Ensures (Sourced source [] []) (formatStage w)
      (fun failure d => ∃ call : ToolCall, match failure with
        | none => ∃ text, call.Formats w text ∧ Sourced text [text] [call] d
        | some f => f.stage = .format ∧ call.tool = .format ∧
            call.Explains w.config.sourcePath f ∧ Sourced source [] [call] d)
      (Spared w source) := by
  have hspared : ∀ d (call : ToolCall), Sourced source [] [call] d → call.tool = .format →
      ¬ call.Botched w.config.sourcePath → Spared w source d := by
    intro d call hd htool hbotched
    refine ⟨[call], hd, fun other hother => ?_⟩
    rw [List.mem_singleton.1 hother]
    exact ⟨htool, hbotched⟩
  have hnothing : ∀ d : Draft World, Sourced source [] [] d → Spared w source d :=
    fun d hd => ⟨[], hd, by simp⟩
  unfold formatStage
  refine (moveTo_sourced .format).bind fun _ => .bind_get fun d₀ => ?_
  refine Ensures.bind
    (((writeFile_sourced _ _).stopping hnothing).weaken fun _ hd => hd.2) fun _ => ?_
  refine (invoke_sourced .format _ _ _ fun d call htool _ hended hd =>
    hspared d call hd htool (ToolCall.not_botched_of_not_ended hended)).bind fun failure => ?_
  cases failure with
  | some f =>
    refine .pure fun d hd => ?_
    obtain ⟨call, htool, -, hexplains, -, hd⟩ := hd
    exact ⟨call, hexplains.tool.symm.trans htool, htool, hexplains, hd⟩
  | none =>
    refine .of_each fun d hd => ?_
    obtain ⟨call, htool, -, hpassed, hleft, hsourced⟩ := hd
    refine ((readFile_sourced call.after _).of_eq ⟨hleft, hsourced⟩).bind fun result => ?_
    cases result with
    | error e =>
      -- nothing is there, so no bytes are there that are no text
      refine .abort fun d' hd' => hspared d' call hd'.1 htool (hpassed.not_botched ?_)
      intro bytes hbytes
      cases hd'.2.1 bytes hbytes
    | ok bytes =>
      cases htext : Text.ofUtf8? bytes with
      | none =>
        simp only [htext]
        refine .pure fun d' hd' => ⟨call, rfl, htool, ?_, hd'.1⟩
        rw [← htool]
        exact hpassed.explains _
      | some text =>
        simp only [htext]
        refine .of_each fun d' hd' => ?_
        obtain ⟨hsourced, -, hfound⟩ := hd'
        have hformats : call.Formats w text := by
          refine ⟨htool, hpassed, ?_⟩
          rw [← Text.ofUtf8?_eq_some_iff.1 htext]
          exact hfound bytes rfl
        refine ((takeOver_sourced text).of_eq hsourced).consequence fun failure d₁ hd₁ => ?_
        obtain ⟨rfl, hd₁⟩ := hd₁
        exact ⟨call, text, hformats, hd₁⟩

/-- A later stage hands its tool the configuration for the imports of the text. -/
theorem hand_sourced {α : Type} (hcalls : Edits w manifest text calls) (hm : manifest = some m)
    {tool : Tool} {args : List String} {path : String} {data : ByteArray}
    (hconfigured : ∀ call : ToolCall, call.tool = tool → call.before.FileAt path data →
      call.Configured w.config m text)
    {k : Option Failure → Step World α} {post : α → Draft World → Prop}
    (hk : ∀ failure, Ensures (fun d => ∃ call : ToolCall, call.tool = tool ∧
        call.Judged w.config.sourcePath failure ∧ Edits w manifest text (calls ++ [call]) ∧
        Sourced text [text] (calls ++ [call]) d) (k failure) post (Replaced w manifest)) :
    Ensures (Sourced text [text] calls)
      (moveTo (stageOf tool) >>= fun _ => change (fun fs => fs.writeFile path data) >>= fun _ =>
        invoke w tool args >>= k) post (Replaced w manifest) := by
  refine (moveTo_sourced tool).bind fun _ =>
    ((writeFile_sourced path data).stopping fun d hd => ⟨text, calls, hcalls, hd⟩).bind fun _ => ?_
  refine Ensures.bind (invoke_sourced tool args path data fun d call htool hfile _ hd =>
    ⟨text, _, hcalls.concat hm (hconfigured call htool hfile), hd⟩) fun failure => ?_
  refine (hk failure).weaken fun d hd => ?_
  obtain ⟨call, htool, hfile, hjudged, -, hd⟩ := hd
  exact ⟨call, htool, hjudged, hcalls.concat hm (hconfigured call htool hfile), hd⟩

/-- A stage after the formatter adds one run, which tells the failure if there is one. -/
theorem compileStage_sourced (hcalls : Edits w manifest text calls) (hm : manifest = some m) :
    Ensures (Sourced text [text] calls) (compileStage w (Source.imports text) m)
      (fun failure d => ∃ call : ToolCall, Edits w manifest text (calls ++ [call]) ∧
        Sourced text [text] (calls ++ [call]) d ∧
        ∀ f, failure = some f → call.Explains w.config.sourcePath f) (Replaced w manifest) := by
  unfold compileStage
  refine hand_sourced hcalls hm (fun call htool hfile => Or.inl ⟨htool, hfile⟩) fun failure => ?_
  cases failure with
  | some f =>
    refine .pure fun d hd => ?_
    obtain ⟨call, -, hexplains, hcalls, hd⟩ := hd
    exact ⟨call, hcalls, hd, fun f' hf => Option.some.inj hf ▸ hexplains⟩
  | none =>
    refine .bind_get fun d₀ => ?_
    split
    · refine .pure fun d hd => ?_
      obtain ⟨-, call, -, -, hcalls, hd⟩ := hd
      exact ⟨call, hcalls, hd, fun f hf => by cases hf⟩
    · refine .pure fun d hd => ?_
      obtain ⟨-, call, htool, hpassed, hcalls, hd⟩ := hd
      refine ⟨call, hcalls, hd, fun f hf => ?_⟩
      cases hf
      rw [missingOutput, ← htool]
      exact hpassed.explains _

theorem linkStage_sourced (hcalls : Edits w manifest text calls) (hm : manifest = some m) :
    Ensures (Sourced text [text] calls) (linkStage w (Source.imports text) m)
      (fun result d => ∃ call : ToolCall, Edits w manifest text (calls ++ [call]) ∧
        Sourced text [text] (calls ++ [call]) d ∧
        ∀ f, result = .error f → call.Explains w.config.sourcePath f) (Replaced w manifest) := by
  unfold linkStage
  refine hand_sourced hcalls hm (fun call htool hfile => Or.inr ⟨htool, hfile⟩) fun failure => ?_
  cases failure with
  | some f =>
    refine .pure fun d hd => ?_
    obtain ⟨call, -, hexplains, hcalls, hd⟩ := hd
    exact ⟨call, hcalls, hd, fun f' hf => Except.error.inj hf ▸ hexplains⟩
  | none =>
    refine .of_each fun d hd => ?_
    obtain ⟨call, htool, hpassed, hcalls, hd⟩ := hd
    have hread : Ensures (fun d' => d' = d) (readFile w w.config.modulePath)
        (fun _ d' => Sourced text [text] (calls ++ [call]) d') (Replaced w manifest) :=
      .readFile fun d' _ _ _ heq _ => by
        rw [heq]
        exact ⟨hd.source, hd.unsettled, hd.texts, hd.calls⟩
    have hmissing :
        call.Explains w.config.sourcePath (missingOutput .link w.config.modulePath) := by
      rw [missingOutput, ← htool]
      exact hpassed.explains _
    refine hread.bind fun result => ?_
    split
    · refine .pure fun d' hd' => ⟨call, hcalls, hd', fun f hf => ?_⟩
      split at hf
      · cases hf
        exact hmissing
      · cases hf
    · exact .pure fun d' hd' => ⟨call, hcalls, hd', fun f hf => Except.error.inj hf ▸ hmissing⟩
    · exact .abort fun d' hd' => ⟨text, _, hcalls, hd'⟩

/-- A frame has no part in this. -/
theorem frameStage_sourced (module : ByteArray) :
    Ensures (Sourced source texts calls) (frameStage w module)
      (fun _ d => Sourced source texts calls d) (Sourced source texts calls) := by
  have hreport : ∀ {d : Draft World}, Sourced source texts calls d →
      ∀ (world : World) patience frames,
      Sourced source texts calls { d with
        world := world, gate := d.gate.emit (.frameCreated module.size), patience := patience
        frames := frames } := by
    intro d hd world patience frames
    refine ⟨hd.source, ?_, ?_, hd.calls⟩
    · rw [Gate.emit_of_unsettled hd.unsettled]
      exact hd.unsettled
    · rw [Gate.texts_emit hd.unsettled, hd.texts]
      exact List.append_nil _
  exact .frameStage (fun _ _ world patience hd _ _ _ => hreport hd world patience _)
    (fun _ _ world patience hd _ => hreport hd world patience _)
    fun _ _ _ hd _ => ⟨hd.source, hd.unsettled, hd.texts, hd.calls⟩

/-- What a session that has come to its end has done to its source: it has kept it and failed with
    the formatter, or replaced it. A failure is told by the run that was the last. -/
inductive Concluded (w : Workshop World) (manifest : Option Manifest) (submitted : String)
    (outcome : Outcome) (d : Draft World) : Prop where
  | kept {f : Failure} {call : ToolCall} : outcome = .failed f → f.stage = .format →
      call.tool = .format → call.Explains w.config.sourcePath f → Sourced submitted [] [call] d →
      Concluded w manifest submitted outcome d
  | replaced {text : String} {calls : List ToolCall} : Edits w manifest text calls →
      Sourced text [text] calls d →
      (∀ f, outcome = .failed f → ∃ call, calls.getLast? = some call ∧
        call.Explains w.config.sourcePath f) → Concluded w manifest submitted outcome d

theorem stages_concluded (w : Workshop World) (kind : Kind) (manifest : Option Manifest)
    (submitted : String) :
    Ensures (Sourced submitted [] []) (stages w kind manifest)
      (fun outcome d => Concluded w manifest submitted outcome d)
      (fun d => Spared w submitted d ∨ Replaced w manifest d) := by
  unfold stages
  refine ((resetWorkspace_sourced w.config).stopping fun d hd =>
    Or.inl ⟨[], hd, by simp⟩).bind fun _ => ?_
  refine (formatStage_sourced.stopping fun d hd => Or.inl hd).bind fun failure => ?_
  cases failure with
  | some f =>
    refine .pure fun d hd => ?_
    obtain ⟨call, hstage, htool, hexplains, hd⟩ := hd
    exact .kept rfl hstage htool hexplains hd
  | none =>
    refine .of_each fun d hd => ?_
    obtain ⟨call, text, hformats, hd⟩ := hd
    have hcalls : Edits w manifest text [call] := ⟨call, [], rfl, hformats, by simp⟩
    dsimp only
    split
    · refine .pure fun d' heq => .replaced hcalls (heq ▸ hd) fun f hf => ?_
      cases hf
    next m hfilter =>
    have hm : manifest = some m := (Option.filter_eq_some_iff.1 hfilter).1
    have hreplaced : ∀ d', Replaced w manifest d' →
        Spared w submitted d' ∨ Replaced w manifest d' := fun d' => Or.inr
    refine .bind_get fun d₀ => .of_each fun d₁ hd₁ => ?_
    obtain ⟨rfl, rfl⟩ := hd₁
    rw [hd.source]
    refine (((compileStage_sourced hcalls hm).stopping hreplaced).of_eq hd).bind fun failure => ?_
    cases failure with
    | some f =>
      refine .pure fun d' hd' => ?_
      obtain ⟨compile, hcalls', hd', hexplains⟩ := hd'
      exact .replaced hcalls' hd' fun f' hf => ⟨compile, List.getLast?_concat, by
        cases hf
        exact hexplains f rfl⟩
    | none =>
      refine .of_each fun d₂ hd₂ => ?_
      obtain ⟨compile, hcompiled, hd₂, -⟩ := hd₂
      refine (((linkStage_sourced hcompiled hm).stopping hreplaced).of_eq hd₂).bind fun result => ?_
      cases result with
      | error f =>
        refine .pure fun d' hd' => ?_
        obtain ⟨link, hcalls', hd', hexplains⟩ := hd'
        exact .replaced hcalls' hd' fun f' hf => ⟨link, List.getLast?_concat, by
          cases hf
          exact hexplains f rfl⟩
      | ok module =>
        refine .of_each fun d₃ hd₃ => ?_
        obtain ⟨link, hlinked, hd₃, -⟩ := hd₃
        refine (((frameStage_sourced module).stopping fun d' hd' =>
          hreplaced d' ⟨text, _, hlinked, hd'⟩).of_eq hd₃).bind fun _ =>
          .pure fun d' hd' => .replaced hlinked hd' fun f hf => ?_
        cases hf

end Stages

/-! ## The law -/

/-- What a session does to the source that was submitted to it. -/
structure EditLaw (w : Workshop World) (manifest : Option Manifest) (submitted : String)
    (result : Except Error Session) (d : Draft World) : Prop where
  /-- One text at most is reported as formatted. -/
  once : d.gate.texts.length ≤ 1
  /-- A text that is was found in the place of the source after the formatter had passed. It is the
      source of the session, and the configurations for all later tools are for its imports. -/
  replaced : ∀ text ∈ d.gate.texts, Edits w manifest text d.calls ∧
    ∀ session, result = .ok session → session.source = text
  /-- Where none is, the source is the submitted one, no tool but the formatter was run, and the
      session was timed out or has failed there. -/
  kept : d.gate.texts = [] → (∀ call ∈ d.calls, call.tool = .format) ∧
    ∀ session, result = .ok session → session.source = submitted ∧
      (session.outcome = .timedOut ∨ ∃ f, session.outcome = .failed f ∧ f.stage = .format)
  /-- Where a run of the formatter is botched, the session has failed there. -/
  rejected : ∀ call ∈ d.calls, call.Botched w.config.sourcePath →
    ∃ session f, result = .ok session ∧ session.outcome = .failed f ∧ f.stage = .format
  /-- Every failure is told by the run that was the last. -/
  explained : ∀ session f, result = .ok session → session.outcome = .failed f →
    ∃ call, d.calls.getLast? = some call ∧ call.Explains w.config.sourcePath f

section Law

variable {w : Workshop World} {manifest : Option Manifest} {submitted : String}
  {result : Except Error Session} {d d' : Draft World}

/-- A session that has replaced its source obeys the law. -/
theorem Edits.editLaw {text : String} {calls : List ToolCall} (h : Edits w manifest text calls)
    (hcalls : d.calls = calls) (htexts : d.gate.texts = [text])
    (hsource : ∀ session, result = .ok session → session.source = text)
    (hfailed : ∀ session f, result = .ok session → session.outcome = .failed f →
      ∃ call, calls.getLast? = some call ∧ call.Explains w.config.sourcePath f) :
    EditLaw w manifest submitted result d where
  once := by rw [htexts, List.length_singleton]
  replaced other hother := by
    rw [htexts, List.mem_singleton] at hother
    rw [hother, hcalls]
    exact ⟨h, hsource⟩
  kept hnone := by
    rw [htexts] at hnone
    cases hnone
  rejected call hcall hbotched := absurd hbotched (h.not_botched (hcalls ▸ hcall))
  explained := by
    rw [hcalls]
    exact hfailed

/-- A session that was stopped obeys the law: it has no result, or was timed out. -/
theorem editLaw_of_stopped (h : Spared w submitted d ∨ Replaced w manifest d)
    (hcalls : d'.calls = d.calls) (htexts : d'.gate.texts = d.gate.texts)
    (hresult : ∀ session, result = .ok session →
      session.source = d.source ∧ session.outcome = .timedOut) :
    EditLaw w manifest submitted result d' := by
  have hfailed : ∀ (session : Session) (f : Failure), result = .ok session →
      session.outcome ≠ .failed f := by
    intro session f hsession hfailed
    rw [(hresult session hsession).2] at hfailed
    cases hfailed
  rcases h with ⟨calls, hd, hspared⟩ | ⟨text, calls, hedits, hd⟩
  · rw [hd.calls] at hcalls
    rw [hd.texts] at htexts
    refine ⟨by simp [htexts], by simp [htexts], fun _ => ⟨?_, fun session hsession => ?_⟩,
      fun call hcall hbotched => ?_, fun session f hsession hout => ?_⟩
    · rw [hcalls]
      exact fun call hcall => (hspared call hcall).1
    · rw [(hresult session hsession).1]
      exact ⟨hd.source, Or.inl (hresult session hsession).2⟩
    · exact absurd hbotched (hspared call (hcalls ▸ hcall)).2
    · exact absurd hout (hfailed session f hsession)
  · exact hedits.editLaw (hcalls.trans hd.calls) (htexts.trans hd.texts)
      (fun session hsession => (hresult session hsession).1.trans hd.source)
      fun session f hsession hout => absurd hout (hfailed session f hsession)

/-- A session that has come to its end obeys the law. -/
theorem Concluded.editLaw {outcome : Outcome} (h : Concluded w manifest submitted outcome d)
    (hcalls : d'.calls = d.calls) (htexts : d'.gate.texts = d.gate.texts) {session : Session}
    (hsource : session.source = d.source) (houtcome : session.outcome = outcome) :
    EditLaw w manifest submitted (.ok session) d' := by
  cases h with
  | @kept f call hfailed hstage htool hexplains hd =>
    rw [hd.calls] at hcalls
    rw [hd.texts] at htexts
    have hout : session.outcome = .failed f := houtcome.trans hfailed
    refine ⟨by simp [htexts], by simp [htexts], fun _ => ⟨?_, fun other hother => ?_⟩,
      fun _ _ _ => ⟨session, f, rfl, hout, hstage⟩, fun other f' hother hout' => ?_⟩
    · rw [hcalls]
      exact List.forall_mem_singleton.2 htool
    · cases hother
      exact ⟨hsource.trans hd.source, Or.inr ⟨f, hout, hstage⟩⟩
    · cases hother
      cases hout.symm.trans hout'
      exact ⟨call, by rw [hcalls]; rfl, hexplains⟩
  | replaced hedits hd hexplains =>
    refine hedits.editLaw (hcalls.trans hd.calls) (htexts.trans hd.texts) (fun other hother => ?_)
      fun other f hother hout => ?_
    · cases hother
      exact hsource.trans hd.source
    · cases hother
      exact hexplains f (houtcome.symm.trans hout)

end Law

/-- An asset below the work directory, in the place of the source. -/
def sourceAsset : Asset.Mount Unit :=
  ⟨["/tmp/"], fun world _ => (.ok "package asset\n".toUTF8, world)⟩

/-- A session in which the formatter removes the source, and has nothing to say. -/
def removingFormatter : Except Error Session × Draft (Rehearsal Unit) :=
  conduct ⟨.default, some (Rehearsal.mount sourceAsset), Rehearsal.toolchain, Rehearsal.frameHost⟩
    .format none "package main\n" (.empty ⟨0, 0⟩)
    ⟨(), [(.format, [[.operate (.unlink "/tmp/main.go")]])], [], [], []⟩

end Session

end Workbench
