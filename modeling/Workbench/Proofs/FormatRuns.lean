import Workbench.Proofs.HostLaunches
import Workbench.Proofs.SparedFiles
import Workbench.Proofs.TraceLaw
import Workbench.Proofs.Untouched

set_option autoImplicit false

/-! # Runs of the formatter

The formatter of the host is given a copy of the source and leaves its own text there. What it does
stays below the scratch directory, and nothing has to be fetched for it, so a session that formats
spares all other files of the host. The session approves of the text only if the formatter has ended
with success and has said nothing.  -/

namespace Workbench

open Host (Disk Job)

variable {World : Type}

/-- What the programs of a launcher do they do below a directory of the host. -/
def Host.Launcher.Confined (l : Host.Launcher) (root : String) : Prop :=
  ∀ request d, Job.Sparing root d (l.launch request d).2

namespace HostToolchain

open FileSystem (Scratch Reachable OnlyNodes)
open FileSystem.Scratch

variable {t : HostToolchain World} {mount : Option (Asset.Mount World)} {p : Path}
  {a b c : FileSystem × World} {path : String} {patience : Nat}

/-- What has become of a file that is given to the formatter under a name. -/
inductive Returns (t : HostToolchain World) (p : Path) (given left : ByteArray) :
    String → Disk → Disk → Prop where
  /-- Its copy holds what the formatter has left. -/
  | written {d d' : Disk} : d.read (t.scratch.hostPath p) = .ok given →
      d'.read (t.scratch.hostPath p) = .ok left → Returns t p given left (t.scratch.hostPath p) d d'
  /-- Its copy was removed, which changes nothing. -/
  | removed {d d' : Disk} {e : Host.Error} : d.read (t.scratch.hostPath p) = .ok given →
      d'.read (t.scratch.hostPath p) = .error e → e.kind = .notFound → left = given →
      Returns t p given left (t.scratch.hostPath p) d d'
  /-- A path that is spelled as a directory names no file, so there is no copy. -/
  | withheld {name : String} {d d' : Disk} : p.trailing = true → left = given →
      Returns t p given left name d d'

/-- Copying out a file that is there fetches nothing. -/
theorem exported_there (mount : Option (Asset.Mount World)) (hs : t.scratch.disk.Lawful)
    (ha : Reachable a.1) (hp : a.1.resolve path = .ok p) {data : ByteArray} (hdata : a.1.bytesAt p = some data) :
    let installed := resultOf (Job.install (t.scratch.hostPath p) (some data) Disk.fileMode)
      (t.scratch.disk.get a.2)
    ∃ b, resultOf (t.scratch.exportFile mount path) a =
        (installed.1.map fun _ => t.scratch.hostPath p, b) ∧
      t.scratch.disk.get b.2 = installed.2 ∧ Reachable b.1 ∧ OnlyNodes a.1 b.1 ∧
      b.1.bytesAt p = some data := by
  obtain ⟨fs, world⟩ := a
  intro installed
  have hroot := ha.parts_ne_nil (by rw [hdata]; rfl)
  obtain ⟨q, hq, hparts⟩ := FileSystem.resolve_toString fs p
  obtain ⟨times, hread⟩ := FileSystem.readAll_of_bytesAt hq
    (FileSystem.bytesAt_eq_of_parts fs hparts ▸ hdata) mount world
  have hreachable := ha.readAll mount world p.toString
  have hnodes := OnlyNodes.readAll mount fs world p.toString
  have hkept := FileSystem.bytesAt_readAll hroot (by rw [hdata]; rfl) mount world p.toString
  rw [hread] at hreachable hnodes hkept
  rw [hdata] at hkept
  have hcases := exporting hs mount path fs world
  generalize resultOf (t.scratch.exportFile mount path) (fs, world) = result at hcases ⊢
  cases hcases with
  | nowhere hnowhere => cases hnowhere.symm.trans hp
  | unread hp' hunread =>
    cases hp.symm.trans hp'
    cases hunread.symm.trans hread
  | @stuck _ _ _ _ _ later hp' hread' hinstall | @copied _ _ _ _ later hp' hread' hinstall =>
    cases hp.symm.trans hp'
    cases hread.symm.trans hread'
    have hinstalled : installed = _ := hinstall
    exact ⟨(fs.setFile q data times, later), by rw [hinstalled]; rfl, by rw [hinstalled],
      hreachable, hnodes, hkept⟩

/-- It writes below the scratch directory alone. -/
theorem sparing_install (p : Path) (data : ByteArray) : Leads (Job.Sparing t.scratch.root)
    (Job.install (t.scratch.hostPath p) (some data) Disk.fileMode) := by
  intro d hd _
  have hfurnished := Job.furnished_install hd (t.scratch.hostPath p) data Disk.fileMode
  rw [placeOf_hostPath] at hfurnished
  refine ⟨hfurnished.cwd, fun place hbeside => hfurnished.below place List.nil_prefix ?_⟩
  rw [List.mem_singleton]
  rintro rfl
  exact hbeside (List.prefix_append _ _)

/-- A path from the root that has a file is given to the formatter as its copy. -/
theorem resultOf_prepare_format (habs : Path.isAbsolute path = true) :
    resultOf (t.prepare mount .format ["-w", path]) a =
      if a.1.contains path then
        match resultOf (t.scratch.exportFile mount path) a with
        | (.ok name, b) => (.ok (["-w", name], [path]), b)
        | (.error e, b) => (.error (.host e), b)
      else (.ok (["-w", path], []), a) := by
  have hget : resultOf (get : Step World (FileSystem × World)) a = (.ok a, a) := rfl
  have hlast : resultOf (t.prepare mount .format [path]) a =
      if a.1.contains path then
        match resultOf (t.scratch.exportFile mount path) a with
        | (.ok name, b) => (.ok ([name], [path]), b)
        | (.error e, b) => (.error (.host e), b)
      else (.ok ([path], []), a) := by
    rw [prepare, resultOf_bind, hget, goOnWith]
    · by_cases hcontains : a.1.contains path = true
      · rw [hcontains, if_pos (by simpa [Path.isAbsolute] using habs), if_pos rfl, resultOf_bind,
          resultOf_withScratch]
        rcases resultOf (t.scratch.exportFile mount path) a with ⟨e | name, b⟩ <;> rfl
      · rw [if_neg (by simp [hcontains]), if_neg hcontains]
        rfl
    · simp
    · simp
  rw [prepare, resultOf_bind, hget, goOnWith]
  · rw [if_neg (by simp), resultOf_bind, hlast]
    split_ifs
    · rcases resultOf (t.scratch.exportFile mount path) a with ⟨e | name, b⟩ <;> rfl
    · rfl
  · simp
  · simp

/-- How the arguments of the formatter are made ready where its file is there. -/
theorem prepared_format (mount : Option (Asset.Mount World)) (hs : t.scratch.disk.Lawful)
    (ha : Reachable a.1) (habs : Path.isAbsolute path = true) (hp : Path.parse path = .ok p)
    {given : ByteArray}
    (hgiven : a.1.bytesAt p = some given) :
    ∃ result b, resultOf (t.prepare mount .format ["-w", path]) a = (result, b) ∧
      Reachable b.1 ∧ OnlyNodes a.1 b.1 ∧ b.1.bytesAt p = some given ∧
      Job.Sparing t.scratch.root (t.scratch.disk.get a.2) (t.scratch.disk.get b.2) ∧
      ((∃ e, result = .error e) ∨ (p.trailing = true ∧ result = .ok (["-w", path], [])) ∨
        result = .ok (["-w", t.scratch.hostPath p], [path]) ∧ ((t.scratch.disk.get a.2).Grounded →
          (t.scratch.disk.get b.2).read (t.scratch.hostPath p) = .ok given)) := by
  rw [resultOf_prepare_format habs]
  by_cases hcontains : a.1.contains path = true
  · obtain ⟨b, hexport, hdisk, hreachable, hnodes, hkept⟩ :=
      exported_there mount hs ha ((FileSystem.resolve_eq_ok_iff a.1 habs p).2 hp) hgiven
    have hsparing := sparing_install (t := t) p given (t.scratch.disk.get a.2)
    rw [← hdisk] at hsparing
    rw [if_pos hcontains, hexport]
    rcases hinstall : resultOf (Job.install (t.scratch.hostPath p) (some given) Disk.fileMode)
      (t.scratch.disk.get a.2) with ⟨e | ⟨⟩, d⟩ <;> rw [hinstall] at hdisk
    · exact ⟨_, b, rfl, hreachable, hnodes, hkept, hsparing, Or.inl ⟨_, rfl⟩⟩
    · refine ⟨_, b, rfl, hreachable, hnodes, hkept, hsparing, Or.inr (Or.inr ⟨rfl, fun hd => ?_⟩)⟩
      rw [hdisk]
      exact Job.read_of_install hd hinstall
  · rw [if_neg hcontains]
    refine ⟨_, a, rfl, ha, .refl a.1, hgiven, refl_of (Job.Sparing _) _, Or.inr (Or.inl ⟨?_, rfl⟩)⟩
    by_contra htrailing
    refine hcontains ?_
    rw [FileSystem.contains_eq habs hp]
    exact FileSystem.find?_isSome_of_bytesAt (by rw [hgiven]; rfl) (Bool.not_eq_true _ ▸ htrailing)

/-- However a run of the formatter comes out, it spares what is beside the scratch directory. -/
theorem sparing_format (hs : t.scratch.disk.Lawful) (hl : t.launcher.Confined t.scratch.root)
    (ha : Reachable a.1) (habs : Path.isAbsolute path = true) (hp : Path.parse path = .ok p)
    {given : ByteArray} (hgiven : a.1.bytesAt p = some given) {run : Toolchain.Run}
    (h : t.Course mount .format ["-w", path] patience a (run, c)) :
    Job.Sparing t.scratch.root (t.scratch.disk.get a.2) (t.scratch.disk.get c.2) := by
  obtain ⟨result, b, hprepare, hreachable, -, -, hsparing, -⟩ :=
    prepared_format mount hs ha habs hp hgiven
  have hlaunched : ∀ {hostArgs : List String} {result : Except Host.Error Host.Launched} {d : Disk},
      t.launch .format hostArgs patience (t.scratch.disk.get b.2) = (result, d) →
      Job.Sparing t.scratch.root (t.scratch.disk.get a.2)
        (t.scratch.disk.get (t.scratch.disk.set b.2 d)) := by
    intro hostArgs result d hlaunch
    have hconfined := hl (t.launchOf .format hostArgs patience (t.scratch.disk.get b.2))
      (t.scratch.disk.get b.2)
    rw [show t.launcher.launch _ _ = (result, d) from hlaunch] at hconfined
    rw [hs.get_set]
    exact trans_of (Job.Sparing _) hsparing hconfined
  cases h with
  | unready hunready =>
    cases hprepare.symm.trans hunready
    exact hsparing
  | late hready =>
    cases hprepare.symm.trans hready
    exact hsparing
  | refused hready _ hlaunch | running hready _ hlaunch =>
    cases hprepare.symm.trans hready
    exact hlaunched hlaunch
  | @lost _ outputs _ _ _ d _ hready _ hlaunch hback =>
    cases hprepare.symm.trans hready
    have hreturned := returned_fetchBack (t := t) outputs (b.1, t.scratch.disk.set b.2 d) hreachable
    rw [hback] at hreturned
    rw [hreturned.world]
    exact hlaunched hlaunch
  | @exited _ outputs _ c _ d hready _ hlaunch hback =>
    cases hprepare.symm.trans hready
    have hreturned := returned_fetchBack (t := t) outputs (b.1, t.scratch.disk.set b.2 d) hreachable
    rw [show resultOf _ _ = (_, c) from hback] at hreturned
    show Job.Sparing _ _ (t.scratch.disk.get c.2)
    rw [hreturned.world]
    exact hlaunched hlaunch

/-- A formatter that has ended has left what the file holds then. -/
theorem exited_format (hs : t.scratch.disk.Lawful) (hd : (t.scratch.disk.get a.2).Grounded)
    (ha : Reachable a.1) (habs : Path.isAbsolute path = true) (hp : Path.parse path = .ok p)
    {given : ByteArray} (hgiven : a.1.bytesAt p = some given) {status : Int} {left : Nat}
    (h : t.Course mount .format ["-w", path] patience a (.exited status left, c)) :
    ∃ name d d' f bytes,
      t.launch .format ["-w", name] patience d = (.ok (.finished f), d') ∧ status = statusOf f ∧
      c.1.stderr = a.1.stderr ++ t.printed f.stderr ∧ c.1.bytesAt p = some bytes ∧
      t.Returns p given bytes name d d' := by
  obtain ⟨result, b, hprepare, hreachable, hnodes, hkept, -, hresult⟩ :=
    prepared_format mount hs ha habs hp hgiven
  cases h with
  | @exited hostArgs outputs _ c f d' hready _ hlaunch hback =>
  cases hprepare.symm.trans hready
  have hreturned := returned_fetchBack (t := t) outputs (b.1, t.scratch.disk.set b.2 d') hreachable
  rw [show resultOf _ _ = (_, c) from hback] at hreturned
  have hstderr : (t.withPrinted f c.1).stderr = a.1.stderr ++ t.printed f.stderr :=
    congrArg (· ++ t.printed f.stderr) (hnodes.trans hreturned.nodes).stderr
  have hresolve := (FileSystem.resolve_eq_ok_iff b.1 habs p).2 hp
  rcases hresult with ⟨e, ⟨⟩⟩ | ⟨htrailing, hhanded⟩ | ⟨hhanded, hcopy⟩
  · obtain ⟨rfl, rfl⟩ := Prod.mk.inj (Except.ok.inj hhanded)
    refine ⟨path, _, d', f, given, hlaunch, rfl, hstderr, ?_, .withheld htrailing rfl⟩
    obtain ⟨-, rfl⟩ := yields_pure_iff.1 hback
    exact hkept
  · obtain ⟨rfl, rfl⟩ := Prod.mk.inj (Except.ok.inj hhanded)
    obtain ⟨found, himport⟩ := of_yields_fetchBack_singleton hback
    have hcases := importing t.scratch path b.1 (t.scratch.disk.set b.2 d')
    rw [show resultOf _ _ = (.ok found, c) from himport] at hcases
    generalize hanswer : (Except.ok found, c) = answer at hcases
    cases hcases with
    | nowhere | unread => cases hanswer
    | @absent p' e hp' hgone hkind =>
      cases hresolve.symm.trans hp'
      cases hanswer
      rw [hs.get_set] at hgone
      exact ⟨_, _, d', f, given, hlaunch, rfl, hstderr, hkept,
        .removed (hcopy hd) hgone hkind rfl⟩
    | @written p' bytes hp' hread =>
      cases hresolve.symm.trans hp'
      have hnames : b.1.Names path p := ⟨p, hp', rfl⟩
      have hroot : p.parts ≠ [] := hreachable.parts_ne_nil (by rw [hkept]; rfl)
      have hbytes : c.1.bytesAt p = some bytes :=
        bytesAt_of_yields_importFile (a := (b.1, t.scratch.disk.set b.2 d')) hnames hroot hread
          himport
      rw [hs.get_set] at hread
      exact ⟨_, _, d', f, bytes, hlaunch, rfl, hstderr, hbytes, .written (hcopy hd) hread⟩

/-- The formatter was given a file under a name, has ended with success, has had nothing to say, and
    has left the file with other bytes. -/
structure Approved (t : HostToolchain World) (p : Path) (patience : Nat) (given left : ByteArray)
    (name : String) (d d' : Disk) (f : Host.Finished) : Prop where
  launched : t.launch .format ["-w", name] patience d = (.ok (.finished f), d')
  ending : f.ending = .exited 0
  /-- Its standard error is blank once the scratch directory is taken out of it. -/
  quiet : Text.trim (Text.removeAll t.scratch.root.toList (Text.ofUtf8Lossy f.stderr).toList) = []
  returns : t.Returns p given left name d d'

end HostToolchain

namespace Session

open HostToolchain
open FileSystem (Reachable)

variable {t : HostToolchain World} {w : Workshop World} {p : Path} {world : World}
  {source : String} {patience : Nat}

/-- A formatter that passes has ended with success and has had nothing to say. -/
theorem of_verdict_eq_none {sourcePath : String} {tool : Tool} {f : Host.Finished}
    (h : verdict sourcePath tool (Text.ofUtf8Lossy (t.printed f.stderr)) (statusOf f) = none) :
    f.ending = .exited 0 ∧ Text.trim
      (Text.removeAll t.scratch.root.toList (Text.ofUtf8Lossy f.stderr).toList) = [] := by
  obtain ⟨hstatus, hquiet⟩ := verdict_eq_none_iff.1 h
  rw [printed, Text.ofUtf8Lossy_toUTF8, String.toList_ofList] at hquiet
  refine ⟨?_, hquiet⟩
  cases hending : f.ending with
  | exited status =>
    rw [statusOf, hending] at hstatus
    exact congrArg _ (Int.ofNat.inj hstatus)
  | killed signal =>
    rw [statusOf, hending] at hstatus
    cases hstatus

/-- The draft of a session that has asked nothing of the host yet. -/
structure Drafted (world : World) (source : String) (patience : Nat) (d : Draft World) : Prop where
  reachable : Reachable d.fs
  world : d.world = world
  source : d.source = source
  patience : d.patience = patience

/-- The host is as before beside the scratch directory. -/
def SparedBy (t : HostToolchain World) (world : World) (d : Draft World) : Prop :=
  Job.Sparing t.scratch.root (t.scratch.disk.get world) (t.scratch.disk.get d.world)

theorem sparedBy_of_world {d : Draft World} (h : d.world = world) : SparedBy t world d := by
  rw [SparedBy, h]
  exact refl_of (Job.Sparing _) _

theorem Drafted.change {act : FileSystem → Except FileSystem.Error Unit × FileSystem}
    (hact : ∀ fs, Reachable fs → Reachable (act fs).2) :
    Ensures (Drafted world source patience) (change act)
      (fun _ => Drafted world source patience) (SparedBy t world) := by
  refine .change (fun d fs hd heq => ?_) fun d e fs hd _ => sparedBy_of_world hd.world
  have hreachable := hact d.fs hd.reachable
  rw [heq] at hreachable
  exact ⟨hreachable, hd.world, hd.source, hd.patience⟩

theorem resetWorkspace_drafted (c : Config) :
    Ensures (Drafted world source patience) (resetWorkspace c)
      (fun _ => Drafted world source patience) (SparedBy t world) := by
  have hunlink : ∀ path, Ensures (Drafted world source patience) (removeStale path)
      (fun _ => Drafted world source patience) (SparedBy t world) := by
    refine fun path => Drafted.change fun fs hfs => ?_
    have hstep := hfs.step (none : Option (Asset.Mount Unit)) () (.unlink path)
    rw [FileSystem.perform] at hstep
    cases hresult : fs.unlink path with
    | ok fs' =>
      rw [hresult] at hstep
      exact hstep
    | error e => cases e <;> exact hfs
  unfold resetWorkspace
  have hclear : Ensures (Drafted world source patience)
      (modify fun d : Draft World => { d with fs := d.fs.clearOutput })
      (fun _ => Drafted world source patience) (SparedBy t world) :=
    .modify fun d hd => ⟨hd.reachable.step (none : Option (Asset.Mount Unit)) () .clearOutput,
      hd.world, hd.source, hd.patience⟩
  have hmake : Ensures (Drafted world source patience)
      (change fun fs => fs.makeDir c.workDir true) (fun _ => Drafted world source patience)
      (SparedBy t world) :=
    Drafted.change fun fs hfs =>
      hfs.step (none : Option (Asset.Mount Unit)) () (.makeDir c.workDir true)
  exact hclear.bind fun _ => hmake.bind fun _ => (hunlink _).bind fun _ => hunlink _

/-- The source is in its file, which leads to a path. -/
structure Filed (w : Workshop World) (p : Path) (world : World) (source : String) (patience : Nat)
    (d : Draft World) : Prop where
  drafted : Drafted world source patience d
  path : Path.parse w.config.sourcePath = .ok p
  bytes : d.fs.bytesAt p = some source.toUTF8

theorem writeSource_filed (habs : Path.isAbsolute w.config.sourcePath = true) :
    Ensures (Drafted world source patience)
      (change fun fs => fs.writeFile w.config.sourcePath source.toUTF8)
      (fun _ d => ∃ p, Filed w p world source patience d) (SparedBy t world) := by
  refine .change (fun d fs hd hact => ?_) fun d e fs hd _ => sparedBy_of_world hd.world
  have hreachable := hd.reachable.writeFile w.config.sourcePath source.toUTF8
  have hok : (d.fs.writeFile w.config.sourcePath source.toUTF8).1 = .ok () := congrArg Prod.fst hact
  obtain ⟨p, hp⟩ : ∃ p, d.fs.resolve w.config.sourcePath = .ok p := by
    cases hresolve : d.fs.resolve w.config.sourcePath with
    | ok p => exact ⟨p, rfl⟩
    | error e =>
      rw [FileSystem.writeFile, hresolve] at hok
      cases hok
  have hroot := hd.reachable.parts_ne_nil_of_writeFile hp hok
  have hbytes := FileSystem.bytesAt_of_writeFile hroot ⟨p, hp, rfl⟩ hok
  rw [hact] at hreachable hbytes
  exact ⟨p, ⟨hreachable, hd.world, hd.source, hd.patience⟩,
    (FileSystem.resolve_eq_ok_iff d.fs habs p).1 hp, hbytes⟩

/-- The formatter was content with the source, and what it has left is in the file. -/
def Reformed (t : HostToolchain World) (w : Workshop World) (source : String) (patience : Nat)
    (d : Draft World) : Prop :=
  ∃ p name before after f left, Path.parse w.config.sourcePath = .ok p ∧
    t.Approved p patience source.toUTF8 left name before after f ∧ d.fs.bytesAt p = some left

theorem invokeFormat_reformed (hs : t.scratch.disk.Lawful)
    (hl : t.launcher.Confined t.scratch.root) (htool : w.toolchain = t.toolchain)
    (habs : Path.isAbsolute w.config.sourcePath = true)
    (hd : (t.scratch.disk.get world).Grounded) :
    Ensures (fun d => ∃ p, Filed w p world source patience d)
      (invoke w .format ["-w", w.config.sourcePath])
      (fun failure d => SparedBy t world d ∧ (failure = none → Reformed t w source patience d))
      (SparedBy t world) := by
  have hcourse := fun d : Draft World => t.course w.mount .format ["-w", w.config.sourcePath]
    d.patience d.fs.clearOutput d.world
  rw [← htool] at hcourse
  have hclear : ∀ {fs : FileSystem}, Reachable fs → Reachable fs.clearOutput :=
    fun hfs => hfs.step (none : Option (Asset.Mount Unit)) () .clearOutput
  refine .invoke (fun d status left fs later gate stdout stderr hd' hrun _ => ?_)
    fun d run fs later hd' hrun => ?_
  · obtain ⟨p, ⟨hreachable, rfl, rfl, rfl⟩, hp, hbytes⟩ := hd'
    have hexited := hcourse d
    rw [hrun] at hexited
    refine ⟨sparing_format hs hl (hclear hreachable) habs hp hbytes hexited, fun hnone => ?_⟩
    obtain ⟨name, before, after, f, bytes, hlaunch, rfl, hstderr, hleft, hreturns⟩ :=
      exited_format hs hd (hclear hreachable) habs hp hbytes hexited
    have hempty : d.fs.clearOutput.stderr = .empty := rfl
    rw [hempty, ByteArray.empty_append] at hstderr
    dsimp only at hstderr
    rw [hstderr] at hnone
    obtain ⟨hending, hquiet⟩ := of_verdict_eq_none hnone
    exact ⟨p, name, before, after, f, bytes, hp, ⟨hlaunch, hending, hquiet, hreturns⟩, hleft⟩
  · obtain ⟨p, ⟨hreachable, rfl, rfl, rfl⟩, hp, hbytes⟩ := hd'
    have hcame := hcourse d
    rw [hrun] at hcame
    exact sparing_format hs hl (hclear hreachable) habs hp hbytes hcame

/-- A session that passes its format stage has the text that the formatter has left. -/
theorem formatStage_approved (hs : t.scratch.disk.Lawful)
    (hl : t.launcher.Confined t.scratch.root) (htool : w.toolchain = t.toolchain)
    (habs : Path.isAbsolute w.config.workDir = true) (hd : (t.scratch.disk.get world).Grounded) :
    Ensures (Drafted world source patience) (formatStage w)
      (fun failure d => SparedBy t world d ∧ (failure = none → ∃ p name before after f,
        Path.parse w.config.sourcePath = .ok p ∧
        t.Approved p patience source.toUTF8 d.source.toUTF8 name before after f))
      (SparedBy t world) := by
  have habsolute : Path.isAbsolute w.config.sourcePath = true := Config.isAbsolute_workPath habs _
  have hmove : Ensures (Drafted world source patience) (moveTo .formatting)
      (fun _ => Drafted world source patience) (SparedBy t world) :=
    .moveTo fun d hd => ⟨hd.reachable, hd.world, hd.source, hd.patience⟩
  unfold formatStage
  refine hmove.bind fun _ => .bind_get fun d₀ => .of_each fun d₁ hd₁ => ?_
  obtain ⟨rfl, hdrafted⟩ := hd₁
  rw [hdrafted.source]
  refine ((writeSource_filed habsolute).of_eq hdrafted).bind fun _ =>
    (invokeFormat_reformed hs hl htool habsolute hd).bind fun failure => ?_
  cases failure with
  | some f => exact .pure fun d hd => ⟨hd.1, nofun⟩
  | none =>
    refine .of_each fun d₂ hd₂ => ?_
    obtain ⟨hspared, hreformed⟩ := hd₂
    obtain ⟨p, name, before, after, f, left, hp, happroved, hleft⟩ := hreformed rfl
    -- the file is there, so nothing is fetched when it is read
    have hread : Ensures (fun d => d = d₂) (readFile w w.config.sourcePath)
        (fun result d => result = .ok left ∧ SparedBy t world d) (SparedBy t world) := by
      refine .readFile fun d result fs later hd hread => ?_
      subst hd
      have hresolve := (FileSystem.resolve_eq_ok_iff d.fs habsolute p).2 hp
      obtain ⟨times, hthere⟩ := FileSystem.readAll_of_bytesAt hresolve hleft w.mount d.world
      cases hread.symm.trans hthere
      exact ⟨rfl, hspared⟩
    refine hread.bind fun result => ?_
    cases result with
    | error e => exact .abort fun d hd => hd.2
    | ok bytes =>
      cases htext : Text.ofUtf8? bytes with
      | none =>
        simp only [htext]
        exact .pure fun d hd => ⟨hd.2, nofun⟩
      | some text =>
        simp only [htext]
        have hbytes : bytes = text.toUTF8 := Text.ofUtf8?_eq_some_iff.1 htext
        have htake : Ensures
            (fun d => (.ok bytes : Except FileSystem.Error ByteArray) = .ok left ∧
              SparedBy t world d)
            (modify fun d => { d with source := text })
            (fun _ d => bytes = left ∧ SparedBy t world d ∧ d.source = text) (SparedBy t world) :=
          .modify fun d hd => ⟨Except.ok.inj hd.1, hd.2, rfl⟩
        have hemit : Ensures (fun d => bytes = left ∧ SparedBy t world d ∧ d.source = text)
            (emit (.formatted text))
            (fun _ d => bytes = left ∧ SparedBy t world d ∧ d.source = text) (SparedBy t world) :=
          .emit fun d hd => hd
        refine htake.bind fun _ => hemit.bind fun _ => .pure fun d hd => ⟨hd.2.1, fun _ => ?_⟩
        obtain ⟨rfl, -, hsource⟩ := hd
        rw [hbytes] at happroved
        exact ⟨p, name, before, after, f, hp, hsource ▸ happroved⟩

/-- How a session that only formats may end. -/
def Settled (t : HostToolchain World) (w : Workshop World) (source : String) (patience : Nat)
    (text : String) (outcome : Outcome) : Prop :=
  (∃ failure, outcome = .failed failure) ∨ outcome = .timedOut ∨
    outcome = .formatted ∧ ∃ p name before after f, Path.parse w.config.sourcePath = .ok p ∧
      t.Approved p patience source.toUTF8 text.toUTF8 name before after f

theorem stages_settled (hs : t.scratch.disk.Lawful) (hl : t.launcher.Confined t.scratch.root)
    (htool : w.toolchain = t.toolchain) (habs : Path.isAbsolute w.config.workDir = true)
    (hd : (t.scratch.disk.get world).Grounded) :
    Ensures (Drafted world source patience) (stages w .format none)
      (fun outcome d => SparedBy t world d ∧ Settled t w source patience d.source outcome)
      (SparedBy t world) := by
  unfold stages
  refine (resetWorkspace_drafted w.config).bind fun _ =>
    (formatStage_approved hs hl htool habs hd).bind fun failure => ?_
  cases failure with
  | some f => exact .pure fun d hd => ⟨hd.1, Or.inl ⟨f, rfl⟩⟩
  | none => exact .pure fun d hd => ⟨hd.1, Or.inr (Or.inr ⟨rfl, hd.2 rfl⟩)⟩

/-- A session that only formats spares the host beside the scratch directory, and ends as formatted
    only if the formatter was content. -/
theorem perform_format (hs : t.scratch.disk.Lawful) (hl : t.launcher.Confined t.scratch.root)
    (htool : w.toolchain = t.toolchain) (habs : Path.isAbsolute w.config.workDir = true)
    (hd : (t.scratch.disk.get world).Grounded) {fs : FileSystem} (hfs : Reachable fs)
    (source : String) : SparedBy t world (perform w none source fs world).2 ∧
      ∀ session, (perform w none source fs world).1 = .ok session →
        Settled t w source (1000 * w.config.timeoutSeconds) session.source session.outcome := by
  have hstart : Drafted world source (1000 * w.config.timeoutSeconds)
      (Draft.start .format source (1000 * w.config.timeoutSeconds) fs world) :=
    ⟨hfs, rfl, rfl, rfl⟩
  have hkept := (stages_settled hs hl htool habs hd).kept _ hstart
  have hperform : perform w none source fs world = conduct w .format none source fs world := rfl
  rw [hperform]
  rcases conduct_cases w .format none source fs world with
    ⟨outcome, d, hon, hconduct⟩ | ⟨cause, d, hon, hconduct⟩ | ⟨d, hon, hconduct⟩ <;>
    rw [hon] at hkept <;> rw [hconduct]
  · refine ⟨hkept.1, fun session hsession => ?_⟩
    cases hsession
    exact hkept.2
  · exact ⟨hkept, nofun⟩
  · refine ⟨hkept, fun session hsession => ?_⟩
    cases hsession
    exact Or.inr (Or.inl rfl)

end Session

end Workbench
