import Workbench.Proofs.TraceLaw
import Workbench.Proofs.TreeInvariant
import Workbench.Proofs.Untouched
import Workbench.Session.Script

set_option autoImplicit false

/-! # A module is freshly built

A session that ends ready has built its module itself. The workspace is reset first, so nothing is
left where the archive and the module belong. From there on the session leaves both places alone,
and everything else that happens to the file system happens in runs of tools. So what is found there
later came about in one of these runs. -/

namespace Workbench.Session

variable {World : Type}

/-! ## What came about in a run of a tool -/

/-- Something has come about in a run of a tool: it was not so before that run, and has been so
    after it and after every later one. -/
def Arose (holds : FileSystem → Bool) (calls : List ToolCall) : Prop :=
  ∃ earlier call later, calls = earlier ++ call :: later ∧ holds call.before = false ∧
    ∀ next ∈ call :: later, holds next.after = true

/-- What is so after one more run came about in that run, if it did not before. -/
theorem Arose.concat {holds : FileSystem → Bool} {calls : List ToolCall} {call : ToolCall}
    (h : holds call.before = true → Arose holds calls) (hafter : holds call.after = true) :
    Arose holds (calls ++ [call]) := by
  cases hbefore : holds call.before with
  | false =>
    refine ⟨calls, call, [], rfl, hbefore, fun next hnext => ?_⟩
    rw [List.mem_singleton.1 hnext, hafter]
  | true =>
    obtain ⟨earlier, first, later, rfl, hfirst, hlater⟩ := h hbefore
    refine ⟨earlier, first, later ++ [call], by rw [List.append_assoc, List.cons_append], hfirst,
      fun next hnext => ?_⟩
    rw [← List.cons_append] at hnext
    rcases List.mem_append.1 hnext with hnext | hnext
    · exact hlater next hnext
    · rw [List.mem_singleton.1 hnext, hafter]

/-! ## Resetting the workspace -/

/-- After the reset nothing is at some paths, and nothing has been recorded. -/
def Vacated (gone : List Path) (d : Draft World) : Prop :=
  (∃ v, d.fs.Shows v ∧ ∀ p ∈ gone, v p.parts = none) ∧ d.calls = [] ∧ d.frames = []

theorem removeStale_vacates {path : String} (habs : Path.isAbsolute path = true)
    (gone : List Path) :
    Ensures (fun d : Draft World => Vacated gone d) (removeStale path)
      (fun _ d => ∃ p, Path.parse path = .ok p ∧ Vacated (p :: gone) d) fun _ => True := by
  refine .change (fun d fs hd hact => ?_) fun _ _ _ _ _ => trivial
  obtain ⟨⟨v, hv, hgone⟩, hrecord⟩ := hd
  split at hact
  · next fs' hok =>
    obtain ⟨p, v', hp, hv', hfree, hkept⟩ := hv.unlink hok
    cases hact
    refine ⟨p, (FileSystem.resolve_eq_ok_iff _ habs p).1 hp, ⟨v', hv', fun q hq => ?_⟩, hrecord⟩
    rcases List.mem_cons.1 hq with rfl | hq
    · exact hfree
    · exact hkept _ (hgone q hq)
  · next missing hmissing =>
    obtain ⟨p, hp, hfree⟩ := hv.unlink_notFound hmissing
    cases hact
    refine ⟨p, (FileSystem.resolve_eq_ok_iff _ habs p).1 hp, ⟨v, hv, fun q hq => ?_⟩, hrecord⟩
    rcases List.mem_cons.1 hq with rfl | hq
    · exact hfree
    · exact hgone q hq
  · exact absurd ((Prod.mk.inj hact).1) (by simp)

theorem resetWorkspace_vacates {c : Config} (habs : Path.isAbsolute c.workDir = true) :
    Ensures (fun d : Draft World => Vacated [] d) (resetWorkspace c)
      (fun _ d => ∃ a m, Path.parse c.mainArchivePath = .ok a ∧ Path.parse c.modulePath = .ok m ∧
        Vacated [m, a] d) fun _ => True := by
  have hclear : Ensures (fun d : Draft World => Vacated [] d)
      (modify fun d => { d with fs := d.fs.clearOutput }) (fun _ d => Vacated [] d)
      fun _ => True := by
    refine .modify fun d hd => ?_
    obtain ⟨⟨v, hv, hgone⟩, hrecord⟩ := hd
    exact ⟨⟨v, hv.of_nodes rfl, hgone⟩, hrecord⟩
  have hmake : Ensures (fun d : Draft World => Vacated [] d)
      (change fun fs => fs.makeDir c.workDir true) (fun _ d => Vacated [] d) fun _ => True := by
    refine .change (fun d fs hd hact => ?_) fun _ _ _ _ _ => trivial
    obtain ⟨⟨v, hv, -⟩, hrecord⟩ := hd
    obtain ⟨v', hv'⟩ := (hv.sound_makeDir c.workDir true).tree
    rw [hact] at hv'
    exact ⟨⟨v', hv', by simp⟩, hrecord⟩
  unfold resetWorkspace
  refine hclear.bind fun _ => hmake.bind fun _ =>
    (removeStale_vacates (Config.isAbsolute_workPath habs _) []).bind fun _ =>
      .of_each fun d hd => ?_
  obtain ⟨a, ha, hvacated⟩ := hd
  exact ((removeStale_vacates (Config.isAbsolute_workPath habs _) [a]).weaken
    fun d' hd' => hd' ▸ hvacated).consequence fun _ d' hd' => ⟨a, hd'.choose, ha, hd'.choose_spec⟩

/-! ## The course of a session -/

/-- A session has run these tools and has not asked for a frame, and everything untouched that was
    not so at the start and is so now has come about in one of the runs. -/
structure Course (w : Workshop World) (start : FileSystem) (calls : List ToolCall)
    (d : Draft World) : Prop where
  called : d.calls = calls
  unframed : d.frames = []
  arose : ∀ holds, Untouched w holds → holds start = false → holds d.fs = true → Arose holds calls

section Stages

variable {w : Workshop World} {start : FileSystem} {calls : List ToolCall}

theorem moveTo_course (state : State) :
    Ensures (Course w start calls) (moveTo state) (fun _ d => Course w start calls d)
      fun _ => True :=
  .moveTo fun _ hd => ⟨hd.called, hd.unframed, hd.arose⟩

theorem emit_course (event : Event) :
    Ensures (Course w start calls) (emit event) (fun _ d => Course w start calls d)
      fun _ => True :=
  .emit fun _ hd => ⟨hd.called, hd.unframed, hd.arose⟩

/-- A file of its own that a session writes does not disturb its course. -/
theorem writeFile_course {path : String} (hpath : path ∈ w.config.ownPaths) (data : ByteArray) :
    Ensures (Course w start calls) (change fun fs => fs.writeFile path data)
      (fun _ d => Course w start calls d) fun _ => True := by
  refine .change (fun d fs hd hact => ?_) fun _ _ _ _ _ => trivial
  refine ⟨hd.called, hd.unframed, fun holds h hstart hholds => hd.arose holds h hstart ?_⟩
  have hkept := h.write d.fs path data hpath
  rw [hact] at hkept
  exact hkept ▸ hholds

/-- Neither does reading the source, even if it is fetched. -/
theorem readSource_course :
    Ensures (Course w start calls) (readFile w w.config.sourcePath)
      (fun _ d => Course w start calls d) fun _ => True := by
  refine .readFile fun d result fs world hd hread => ?_
  refine ⟨hd.called, hd.unframed, fun holds h hstart hholds => hd.arose holds h hstart ?_⟩
  have hkept := h.read d.fs d.world
  rw [hread] at hkept
  exact hkept ▸ hholds

/-- A tool whose stage has no failure has passed, and has left what is there now. -/
theorem invoke_course (tool : Tool) (args : List String) :
    Ensures (Course w start calls) (invoke w tool args)
      (fun failure d => failure = none → ∃ call : ToolCall, call.tool = tool ∧ call.Passed ∧
        d.fs = call.after.clearOutput ∧ Course w start (calls ++ [call]) d) fun _ => True := by
  refine .invoke (fun d status left fs world gate stdout stderr hd hrun hgate hnone => ?_)
    fun _ _ _ _ _ _ => trivial
  obtain ⟨rfl, hquiet⟩ := verdict_eq_none_iff.1 hnone
  refine ⟨⟨tool, args, d.fs.clearOutput, .exited 0 left, fs⟩, rfl, ⟨⟨left, rfl⟩, hquiet⟩, rfl,
    by rw [hd.called], hd.unframed, fun holds h hstart hholds => ?_⟩
  refine Arose.concat (fun hbefore => hd.arose holds h hstart ?_) (h.clear fs ▸ hholds)
  exact h.clear d.fs ▸ hbefore

theorem formatStage_course :
    Ensures (Course w start calls) (formatStage w)
      (fun failure d => failure = none → ∃ call : ToolCall, call.tool = .format ∧ call.Passed ∧
        Course w start (calls ++ [call]) d) fun _ => True := by
  unfold formatStage
  refine (moveTo_course .formatting).bind fun _ => .bind_get fun d₀ => ?_
  refine Ensures.bind ((writeFile_course List.mem_cons_self _).weaken fun _ hd => hd.2) fun _ => ?_
  refine (invoke_course .format _).bind fun failure => ?_
  cases failure with
  | some f => exact .pure fun _ _ => by simp
  | none =>
    refine .of_each fun d hd => ?_
    obtain ⟨call, htool, hpassed, -, hcourse⟩ := hd rfl
    refine (readSource_course.of_eq hcourse).bind fun result => ?_
    cases result with
    | error e => exact .abort fun _ _ => trivial
    | ok bytes =>
      cases htext : Text.ofUtf8? bytes with
      | none =>
        simp only [htext]
        exact .pure fun _ _ => by simp
      | some text =>
        simp only [htext]
        have hmodify : Ensures (Course w start (calls ++ [call]))
            (modify fun d' => { d' with source := text })
            (fun _ d' => Course w start (calls ++ [call]) d') fun _ => True :=
          .modify fun _ hd' => ⟨hd'.called, hd'.unframed, hd'.arose⟩
        exact hmodify.bind fun _ => (emit_course (.formatted text)).bind fun _ =>
          .pure fun _ hd' _ => ⟨call, htool, hpassed, hd'⟩

theorem compileStage_course (imports : List String) (m : Manifest) :
    Ensures (Course w start calls) (compileStage w imports m)
      (fun failure d => failure = none → ∃ call : ToolCall, call.tool = .compile ∧ call.Passed ∧
        call.after.contains w.config.mainArchivePath = true ∧
        Course w start (calls ++ [call]) d ∧ d.fs.contains w.config.mainArchivePath = true)
      fun _ => True := by
  unfold compileStage
  refine (moveTo_course .compiling).bind fun _ => ?_
  refine (writeFile_course (by simp [Config.ownPaths]) _).bind fun _ => ?_
  refine (invoke_course .compile _).bind fun failure => ?_
  cases failure with
  | some f => exact .pure fun _ _ => by simp
  | none =>
    refine .bind_get fun d₀ => ?_
    split
    · next hcontains =>
      refine .pure fun d hd _ => ?_
      obtain ⟨rfl, hpost⟩ := hd
      obtain ⟨call, htool, hpassed, hleft, hcourse⟩ := hpost rfl
      refine ⟨call, htool, hpassed, ?_, hcourse, hcontains⟩
      rw [hleft] at hcontains
      exact hcontains
    · exact .pure fun _ _ => by simp

/-- A module that is linked is the file that the linker has left. -/
theorem linkStage_course (imports : List String) (m : Manifest) {p : Path}
    (habs : Path.isAbsolute w.config.workDir = true) (hp : Path.parse w.config.modulePath = .ok p)
    (hcovers : ∀ mount ∈ w.mount, mount.covers p = false)
    (huntouched : Untouched w (·.isFile p)) (hstart : start.isFile p = false) :
    Ensures (Course w start calls) (linkStage w imports m)
      (fun result d => ∀ module, result = .ok module → module.isEmpty = false ∧
        ∃ call : ToolCall, call.tool = .link ∧ call.Passed ∧
          (∃ times, call.after.file p = .ok (module, times)) ∧ d.calls = calls ++ [call] ∧
          d.frames = [] ∧ Arose (·.isFile p) (calls ++ [call])) fun _ => True := by
  unfold linkStage
  refine (moveTo_course .linking).bind fun _ => ?_
  refine (writeFile_course (by simp [Config.ownPaths]) _).bind fun _ => ?_
  refine (invoke_course .link _).bind fun failure => ?_
  cases failure with
  | some f => exact .pure fun _ _ _ => by simp
  | none =>
    refine .of_each fun d hd => ?_
    obtain ⟨call, htool, hpassed, hleft, hcourse⟩ := hd rfl
    have hread : Ensures (fun d' => d' = d) (readFile w w.config.modulePath)
        (fun result d' => (d'.calls = calls ++ [call] ∧ d'.frames = []) ∧
          ∀ module, result = .ok module → ∃ times, d.fs.file p = .ok (module, times))
        fun _ => True := by
      refine .readFile fun d' result fs world hd' heq => ?_
      subst hd'
      refine ⟨⟨hcourse.called, hcourse.unframed⟩, fun module hmodule => ?_⟩
      subst hmodule
      have hresolve :=
        (FileSystem.resolve_eq_ok_iff d'.fs (Config.isAbsolute_workPath habs _) p).2 hp
      exact FileSystem.file_of_readAll hresolve hcovers heq
    refine hread.bind fun result => ?_
    split
    · next bytes =>
      refine .pure fun d' hd' module hmodule => ?_
      obtain ⟨⟨hcalls, hframes⟩, hfile⟩ := hd'
      obtain ⟨times, hfile⟩ := hfile bytes rfl
      split at hmodule
      · cases hmodule
      next hempty =>
      cases hmodule
      have hisFile : d.fs.isFile p = true := FileSystem.isFile_of_file hfile
      -- the linker has left what is read right after it, buffers of output apart
      refine ⟨Bool.eq_false_iff.2 hempty, call, htool, hpassed, ⟨times, ?_⟩, hcalls, hframes,
        hcourse.arose _ huntouched hstart hisFile⟩
      rw [hleft] at hfile
      exact hfile
    · exact .pure fun _ _ _ => by simp
    · exact .abort fun _ _ => trivial

end Stages

/-- Both reports of a frame that was waited for have arrived. -/
theorem Signals.arrived {signals : Frame.Signals} (hsettled : signals.settled?.isSome)
    (houtcome : signals.outcome = .ok ()) :
    ∃ done loaded, signals = ⟨.arrives done, .arrives loaded⟩ := by
  obtain ⟨done, loaded⟩ := signals
  cases done <;> cases loaded <;>
    simp_all [Frame.Signals.settled?, Frame.Signals.outcome, Frame.Signal.settled?]

theorem frameStage_records (w : Workshop World) (module : ByteArray) (calls : List ToolCall) :
    Ensures (fun d => d.calls = calls ∧ d.frames = []) (frameStage w module)
      (fun _ d => d.calls = calls ∧
        ∃ done loaded, d.frames = [⟨module, .ok ⟨.arrives done, .arrives loaded⟩⟩])
      fun _ => True := by
  refine .frameStage (fun d signals world patience hd _ hsettled houtcome => ?_)
    (fun _ _ _ _ _ _ => trivial) fun _ _ _ _ _ => trivial
  obtain ⟨done, loaded, rfl⟩ := Signals.arrived hsettled houtcome
  refine ⟨hd.1, done, loaded, ?_⟩
  show d.frames ++ [_] = _
  rw [hd.2, List.nil_append]

/-! ## A ready session -/

/-- What a session has done that ends ready with a module. -/
structure FreshBuild (c : Config) (module : ByteArray) (log : Log) : Prop where
  /-- All three tools were run, and have passed. -/
  called : log.calls.map ToolCall.tool = Tool.all
  passed : ∀ call ∈ log.calls, call.Passed
  /-- The compiler has left something in the place of the archive. -/
  compiled : ∀ call ∈ log.calls, call.tool = .compile →
    call.after.contains c.mainArchivePath = true
  /-- The module is what the linker has left, and it is not empty. -/
  linked : module.isEmpty = false ∧ ∃ m, Path.parse c.modulePath = .ok m ∧
    (∀ call ∈ log.calls, call.tool = .link → ∃ times, call.after.file m = .ok (module, times)) ∧
    Arose (·.isFile m) log.calls
  /-- The archive came about in a run of the formatter or the compiler, unless the session has made
      a directory there to put the source in. -/
  archived : (∀ a s, Path.parse c.mainArchivePath = .ok a → Path.parse c.sourcePath = .ok s →
    ¬ a.parts <+: s.parts) → Arose (·.contains c.mainArchivePath) log.calls.dropLast
  /-- There was one frame, which was given the module and has reported twice. -/
  framed : ∃ done loaded, log.frames = [⟨module, .ok ⟨.arrives done, .arrives loaded⟩⟩]

theorem stages_fresh (w : Workshop World) (kind : Kind) (manifest : Option Manifest)
    (habs : Path.isAbsolute w.config.workDir = true)
    (hcovers : ∀ mount ∈ w.mount, ∀ m, Path.parse w.config.modulePath = .ok m →
      mount.covers m = false)
    (hsource : ∀ m s, Path.parse w.config.modulePath = .ok m →
      Path.parse w.config.sourcePath = .ok s → s.parts ≠ m.parts) :
    Ensures (Vacated []) (stages w kind manifest)
      (fun outcome d => ∀ module, outcome = .ready module → FreshBuild w.config module d.log)
      fun _ => True := by
  unfold stages
  refine (resetWorkspace_vacates habs).bind fun _ => .of_each fun d hd => ?_
  obtain ⟨a, m, ha, hm, ⟨v, hv, hgone⟩, hcalls, hframes⟩ := hd
  -- the course starts where the workspace has been reset
  have hstart : Course w d.fs [] d :=
    ⟨hcalls, hframes, fun holds _ hnot hholds => absurd hholds (by simp [hnot])⟩
  have hnoModule : d.fs.isFile m = false := by
    rw [hv.table.isFile_eq, hgone m List.mem_cons_self, Option.any_none]
  have hnoArchive : d.fs.contains w.config.mainArchivePath = false := by
    have hfree : v a.parts = none := hgone a (List.mem_cons_of_mem m List.mem_cons_self)
    have harchive : Path.isAbsolute w.config.mainArchivePath = true :=
      Config.isAbsolute_workPath habs _
    rw [FileSystem.contains_eq harchive ha, hv.table.find?_eq, hfree]
    split <;> rfl
  refine (formatStage_course.of_eq hstart).bind fun failure => ?_
  cases failure with
  | some f => exact .pure fun _ _ _ => by simp
  | none =>
    dsimp only
    split
    · exact .pure fun _ _ _ => by simp
    next manifest _ =>
    -- from here on the runs so far are known one by one
    refine .bind_get fun d₁ => .of_each fun d₂ hd₂ => ?_
    obtain ⟨-, hformatted⟩ := hd₂
    obtain ⟨format, hformat, hformatPassed, hcourse⟩ := hformatted rfl
    refine ((compileStage_course _ manifest).of_eq hcourse).bind fun failure => ?_
    cases failure with
    | some f => exact .pure fun _ _ _ => by simp
    | none =>
      refine .of_each fun d₃ hd₃ => ?_
      obtain ⟨compile, hcompile, hcompilePassed, hleft, hcourse, hcontains⟩ := hd₃ rfl
      have huntouched : Untouched w (·.isFile m) := .isFile habs hm fun s hs => hsource m s hm hs
      refine ((linkStage_course _ manifest habs hm (fun mount hmount => hcovers mount hmount m hm)
        huntouched hnoModule).of_eq hcourse).bind fun result => ?_
      cases result with
      | error f => exact .pure fun _ _ _ => by simp
      | ok module =>
        refine .of_each fun d₄ hd₄ => ?_
        obtain ⟨hsize, link, hlink, hlinkPassed, ⟨times, hfile⟩, hcalls, hframes, harose⟩ :=
          hd₄ module rfl
        refine ((frameStage_records w module _).of_eq ⟨hcalls, hframes⟩).bind fun _ =>
          .pure fun d₅ hd₅ module' hready => ?_
        obtain ⟨hcalls, hframed⟩ := hd₅
        cases hready
        have hlog : d₅.log.calls = [format, compile, link] := hcalls
        refine ⟨?_, ?_, ?_, ⟨hsize, m, hm, ?_, ?_⟩, fun hapart => ?_, hframed⟩
        · rw [hlog, List.map_cons, List.map_cons, List.map_cons, hformat, hcompile, hlink]
          rfl
        · rw [hlog]
          simp [hformatPassed, hcompilePassed, hlinkPassed]
        · rw [hlog]
          simp [hformat, hlink, hleft]
        · rw [hlog]
          simp [hformat, hcompile, hfile]
        · rw [hlog]
          exact harose
        · rw [hlog]
          exact hcourse.arose _ (.contains habs ha fun s hs => hapart a s ha hs) hnoArchive
            hcontains

/-- A session that ends ready with a module has built it. -/
theorem conduct_ready_fresh (w : Workshop World) (kind : Kind) (manifest : Option Manifest)
    (source : String) {fs : FileSystem} (world : World) (hfs : fs.Reachable)
    (habs : Path.isAbsolute w.config.workDir = true)
    (hcovers : ∀ mount ∈ w.mount, ∀ m, Path.parse w.config.modulePath = .ok m →
      mount.covers m = false)
    (hsource : ∀ m s, Path.parse w.config.modulePath = .ok m →
      Path.parse w.config.sourcePath = .ok s → s.parts ≠ m.parts)
    {session : Session} {module : ByteArray}
    (hsession : (conduct w kind manifest source fs world).1 = .ok session)
    (hready : session.outcome = .ready module) :
    FreshBuild w.config module (conduct w kind manifest source fs world).2.log := by
  obtain ⟨v, hv⟩ := hfs.shows
  have hstages := (stages_fresh w kind manifest habs hcovers hsource).kept
    (Draft.start kind source (1000 * w.config.timeoutSeconds) fs world)
    ⟨⟨v, hv, by simp⟩, rfl, rfl⟩
  rcases conduct_cases w kind manifest source fs world with
    ⟨outcome, d, hon, hconduct⟩ | ⟨cause, d, hon, hconduct⟩ | ⟨d, hon, hconduct⟩
  · rw [hconduct] at hsession ⊢
    rw [hon] at hstages
    cases hsession
    obtain ⟨called, passed, compiled, linked, archived, framed⟩ := hstages module hready
    exact ⟨called, passed, compiled, linked, archived, framed⟩
  · rw [hconduct] at hsession
    cases hsession
  · rw [hconduct] at hsession
    cases hsession
    cases hready

/-- A workshop without assets whose tools and frames follow scripts. -/
def scripted (c : Config) : Workshop (Rehearsal Unit) :=
  ⟨c, none, Rehearsal.toolchain, Rehearsal.frameHost⟩

/-- A module of an earlier session is in the way, and is replaced. -/
theorem ready_fresh_over_leftover : ∃ session module,
    (conduct (scripted .default) .run (some ⟨[]⟩) "package main\n"
      (FileSystem.perform none (.empty ⟨0, 0⟩) ()
        (.writeFile "/tmp/main.wasm" "old".toUTF8)).2.1 ⟨(), [], [], [], []⟩).1 = .ok session ∧
    session.outcome = .ready module ∧
    FreshBuild .default module (conduct (scripted .default) .run (some ⟨[]⟩) "package main\n"
      (FileSystem.perform none (.empty ⟨0, 0⟩) ()
        (.writeFile "/tmp/main.wasm" "old".toUTF8)).2.1 ⟨(), [], [], [], []⟩).2.log := by
  have hmodule : (Path.parse Config.default.modulePath).map Path.parts = .ok ["tmp", "main.wasm"] :=
    rfl
  have hsource : (Path.parse Config.default.sourcePath).map Path.parts = .ok ["tmp", "main.go"] :=
    rfl
  refine ⟨_, _, rfl, rfl, conduct_ready_fresh (scripted .default) .run _ _ _
    (.step none () _ (.new ⟨0, 0⟩)) rfl (by simp [scripted]) (fun m s hm hs => ?_) rfl rfl⟩
  rw [show Path.parse Config.default.modulePath = .ok m from hm] at hmodule
  rw [show Path.parse Config.default.sourcePath = .ok s from hs] at hsource
  rw [Except.ok.inj hmodule, Except.ok.inj hsource]
  decide

/-- Settings that put the source into a directory where the archive belongs. -/
def nestedSource : Config := { Config.default with sourceFile := "main.a/main.go" }

/-- A session in which the compiler does nothing. -/
def idleCompiler : Except Error Session × Draft (Rehearsal Unit) :=
  conduct (scripted nestedSource) .run (some ⟨[]⟩) "package main\n" (.empty ⟨0, 0⟩)
    ⟨(), [(.compile, [[]])], [], [], []⟩

/-- The directory that the session makes for the source passes for an archive, though no tool has
    touched it. -/
theorem idleCompiler_ready :
    Path.isAbsolute nestedSource.workDir = true ∧
    (Path.parse nestedSource.sourcePath).map Path.parts = .ok ["tmp", "main.a", "main.go"] ∧
    (Path.parse nestedSource.mainArchivePath).map Path.parts = .ok ["tmp", "main.a"] ∧
    (Path.parse nestedSource.modulePath).map Path.parts = .ok ["tmp", "main.wasm"] ∧
    idleCompiler.1.toOption.map Session.state = some .ready ∧
    idleCompiler.2.calls.map (fun call =>
      (call.before.readDir nestedSource.mainArchivePath,
        call.after.readDir nestedSource.mainArchivePath)) =
      List.replicate 3 (.ok ["main.go"], .ok ["main.go"]) :=
  ⟨rfl, rfl, rfl, rfl, rfl, rfl⟩

end Workbench.Session
