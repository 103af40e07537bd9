import Workbench.Proofs.HostLaunches
import Workbench.Session.Build

set_option autoImplicit false

/-! # Errands of the tools of the host

A session sends a tool to rewrite a file, or to make a file of another one and of the archives that
a configuration names. What the tool makes of it is taken to depend on what it finds in these files.
On the host it finds their copies, under the names that the arguments were given instead, and what
it writes is copied back: the run does to the file system what the tool would have done to it there.

For this the files must not get into each other's way in the scratch directory. The configuration is
there in another wording than in the file system, so it must be none of the other files; and a file
is handed over only if it is there, since a name that leads nowhere is no file to the toolchain. -/

namespace Workbench

open Host (Disk Job)

variable {World : Type}

/-- What a session sends a tool to do. -/
inductive Errand where
  /-- Rewrite a file. -/
  | format (file : String)
  /-- Make a file of another one and of the archives that a configuration names. -/
  | build (linker : Bool) (target config file : String)

namespace Errand

/-- The tool that is sent. -/
def tool : Errand → Tool
  | format _ => .format
  | build linker .. => if linker then .link else .compile

/-- The file that the tool reads. -/
def file : Errand → String
  | format file => file
  | build _ _ _ file => file

/-- The file that the tool writes. -/
def target : Errand → String
  | format file => file
  | build _ target _ _ => target

/-- The configuration that lists its imports. -/
def config? : Errand → Option String
  | format _ => none
  | build _ _ config _ => some config

/-- The arguments that name no file. -/
def flags (linker : Bool) : List String :=
  if linker then [] else ["-p", "main", "-complete", "-pack"]

/-- The arguments that it gets. -/
def args : Errand → List String
  | format file => ["-w", file]
  | build linker target config file =>
    "-o" :: target :: (flags linker ++ ["-importcfg", config, file])

/-- The errand with other names for the same files. -/
def respelled (f : String → String) : Errand → Errand
  | format file => format (f file)
  | build linker target config file => build linker (f target) (f config) (f file)

@[simp] theorem respelled_tool (f : String → String) (e : Errand) : (e.respelled f).tool = e.tool := by
  cases e <;> rfl

@[simp] theorem respelled_target (f : String → String) (e : Errand) :
    (e.respelled f).target = f e.target := by
  cases e <;> rfl

@[simp] theorem respelled_file (f : String → String) (e : Errand) : (e.respelled f).file = f e.file := by
  cases e <;> rfl

@[simp] theorem respelled_config? (f : String → String) (e : Errand) :
    (e.respelled f).config? = e.config?.map f := by
  cases e <;> rfl

/-- Every argument stays where it is, and is the same or has another name. -/
theorem forall₂_args (f : String → String) (e : Errand) :
    List.Forall₂ (fun arg arg' => arg' = arg ∨ arg' = f arg) e.args (e.respelled f).args := by
  cases e with
  | format file => simp [args, respelled]
  | build linker => cases linker <;> simp [args, respelled, flags]

/-- The compiler and the linker are sent on errands. -/
theorem compileArgs_eq (c : Config) : Session.compileArgs c =
    (build false c.mainArchivePath c.compileConfigPath c.sourcePath).args := rfl

theorem linkArgs_eq (c : Config) : Session.linkArgs c =
    (build true c.modulePath c.linkConfigPath c.mainArchivePath).args := rfl

end Errand

/-- What a tool sees on an errand. -/
structure Sheet where
  /-- The imports in the order of the configuration, each with the bytes of its archive. -/
  imports : List (String × Option ByteArray)
  file : Option ByteArray

/-- What becomes of an errand: the bytes that the tool writes, if it writes any, and how it ends. -/
structure Product where
  written : Option ByteArray
  finished : Host.Finished

namespace Errand

/-- The configuration that is found with a way to look at files. -/
def configIn (look : String → Option ByteArray) (e : Errand) : ImportConfig :=
  ((e.config?.bind look).map fun bytes => ImportConfig.parse (Text.ofUtf8Lossy bytes)).getD ⟨[]⟩

/-- What is seen with a way to look at files. -/
def sheet (look : String → Option ByteArray) (e : Errand) : Sheet :=
  ⟨(e.configIn look).entries.map fun entry => (entry.1, look entry.2), look e.file⟩

end Errand

namespace FileSystem

/-- The bytes of the file that a text names. -/
def look (fs : FileSystem) (text : String) : Option ByteArray :=
  match fs.resolve text with
  | .ok p => fs.bytesAt p
  | .error _ => none

/-- What is received is in the file, and in no other. -/
theorem bytesAt_receive {fs : FileSystem} (h : Reachable fs) {p q : Path}
    {bytes : Option ByteArray}
    (hput : ∀ data, bytes = some data → (fs.writeFile p.toString data).1 = .ok ()) :
    (q.parts = p.parts → (fs.receive p.toString bytes).bytesAt q = bytes.or (fs.bytesAt q)) ∧
      (q.parts ≠ p.parts → (fs.receive p.toString bytes).bytesAt q = fs.bytesAt q) := by
  cases bytes with
  | none => exact ⟨fun _ => rfl, fun _ => rfl⟩
  | some data =>
    obtain ⟨r, hr, hparts⟩ := resolve_toString fs p
    refine ⟨fun hq => ?_, fun hq => ?_⟩
    · have hroot := h.parts_ne_nil_of_writeFile hr (hput data rfl)
      rw [hparts, ← hq] at hroot
      exact bytesAt_of_writeFile hroot ⟨r, hr, hparts.trans hq.symm⟩ (hput data rfl)
    · by_cases hroot : q.parts = []
      · rw [h.bytesAt_root hroot]
        exact (h.writeFile _ data).bytesAt_root hroot
      · refine bytesAt_writeFile_of_ne hroot (fun r' hr' => ?_) data
        cases hr.symm.trans hr'
        rw [hparts]
        exact hq.symm

theorem look_of_resolve {fs : FileSystem} {text : String} {p : Path}
    (hp : fs.resolve text = .ok p) : fs.look text = fs.bytesAt p := by
  rw [look, hp]

end FileSystem

namespace HostToolchain

open FileSystem (Scratch OnlyNodes Reachable)
open FileSystem.Scratch

variable {t : HostToolchain World} {mount : Option (Asset.Mount World)}
  {a b : FileSystem × World} {tool : Tool} {hostArgs outputs : List String} {e : Errand}
  {craft : Tool → Sheet → Product}

/-! ## What is handed over -/

/-- Arguments that name no file are handed over as they are. -/
theorem of_yields_prepare_flags {flags rest : List String}
    (hflags : ∀ flag ∈ flags, flag.toList.head? ≠ some '/' ∧ flag ≠ "-importcfg" ∧ flag ≠ "-o")
    (h : Yields (t.prepare mount tool (flags ++ rest)) a (hostArgs, outputs) b) :
    ∃ more, hostArgs = flags ++ more ∧ Yields (t.prepare mount tool rest) a (more, outputs) b := by
  induction flags generalizing hostArgs outputs with
  | nil => exact ⟨hostArgs, rfl, h⟩
  | cons flag flags ih =>
    obtain ⟨hslash, hconfig, htarget⟩ := hflags flag List.mem_cons_self
    rw [List.cons_append, prepare, yields_bind_iff] at h
    · obtain ⟨a₁, _, hget, h⟩ := h
      obtain ⟨rfl, rfl⟩ := yields_get_iff.1 hget
      have hplain : (decide (flag.toList.head? = some '/') && a.1.contains flag) = false := by
        simp [hslash]
      rw [hplain, if_neg Bool.false_ne_true] at h
      simp only [yields_bind_iff, yields_pure_iff] at h
      obtain ⟨⟨more, outputs'⟩, _, hrest, heq, rfl⟩ := h
      cases heq
      obtain ⟨more', rfl, hmore⟩ := ih (fun other hother =>
        hflags other (List.mem_cons_of_mem flag hother)) hrest
      exact ⟨more', rfl, hmore⟩
    · exact fun text rest hflag _ => hconfig hflag
    · exact fun text rest hflag _ => htarget hflag

theorem of_yields_prepare_target {text : String} {rest : List String}
    (h : Yields (t.prepare mount tool ("-o" :: text :: rest)) a (hostArgs, outputs) b) :
    ∃ path a₁ more outputs', Yields (t.exportTarget text) a path a₁ ∧
      Yields (t.prepare mount tool rest) a₁ (more, outputs') b ∧
      hostArgs = "-o" :: path :: more ∧ outputs = text :: outputs' := by
  rw [prepare] at h
  simp only [yields_bind_iff, yields_pure_iff] at h
  obtain ⟨path, a₁, htarget, ⟨more, outputs'⟩, _, hrest, heq, rfl⟩ := h
  cases heq
  exact ⟨path, a₁, more, outputs', htarget, hrest, rfl, rfl⟩

theorem of_yields_prepare_config {text : String} {rest : List String}
    (h : Yields (t.prepare mount tool ("-importcfg" :: text :: rest)) a (hostArgs, outputs) b) :
    ∃ path a₁ more, Yields (t.exportConfig mount text) a path a₁ ∧
      Yields (t.prepare mount tool rest) a₁ (more, outputs) b ∧
      hostArgs = "-importcfg" :: path :: more := by
  rw [prepare] at h
  simp only [yields_bind_iff, yields_pure_iff] at h
  obtain ⟨path, a₁, hconfig, ⟨more, outputs'⟩, _, hrest, heq, rfl⟩ := h
  cases heq
  exact ⟨path, a₁, more, hconfig, hrest, rfl⟩

/-- A text names a file that is there, from the root on. -/
def Stands (fs : FileSystem) (text : String) : Prop :=
  text.toList.head? = some '/' ∧
    ∃ p, fs.resolve text = .ok p ∧ p.trailing = false ∧ (fs.bytesAt p).isSome

/-- A file that is there is handed over as its copy. -/
theorem of_yields_prepare_file (hs : t.scratch.disk.Lawful) (hapart : t.scratch.Apart mount)
    (ha : t.scratch.Ready a) {file : String} (hfile : Stands a.1 file)
    (h : Yields (t.prepare mount tool [file]) a (hostArgs, outputs) b) :
    ∃ p, a.1.resolve file = .ok p ∧ hostArgs = [t.scratch.hostPath p] ∧
      outputs = (if tool = .format then [file] else []) ∧
      Stocked t.scratch mount [p.parts] [p.parts] a b ∧ t.scratch.Faithful b p := by
  obtain ⟨hslash, p, hp, htrailing, hbytes⟩ := hfile
  have hcontains : a.1.contains file = true := by
    rw [FileSystem.contains, hp]
    exact FileSystem.find?_isSome_of_bytesAt hbytes htrailing
  rw [prepare, yields_bind_iff] at h
  · obtain ⟨a₁, _, hget, h⟩ := h
    obtain ⟨rfl, rfl⟩ := yields_get_iff.1 hget
    rw [hcontains, Bool.and_true, if_pos (by simpa using hslash)] at h
    simp only [prepare, yields_bind_iff, yields_pure_iff, yields_withScratch_iff] at h
    obtain ⟨path, a₁, hexport, _, _, ⟨rfl, rfl⟩, heq, rfl⟩ := h
    cases heq
    obtain ⟨q, hq, rfl, hstocked, hfaithful⟩ := of_yields_exportFile hs hapart ha hexport
    exact ⟨q, hq, rfl, by split_ifs <;> rfl, hstocked, hfaithful⟩
  · simp
  · simp

theorem flags_plain (linker : Bool) : ∀ flag ∈ Errand.flags linker,
    flag.toList.head? ≠ some '/' ∧ flag ≠ "-importcfg" ∧ flag ≠ "-o" := by
  cases linker <;> decide

/-- The files of an errand do not get into each other's way. -/
structure Fit (t : HostToolchain World) (craft : Tool → Sheet → Product) (e : Errand)
    (fs viewed : FileSystem) (d : Disk) : Prop where
  /-- The file is there and is named from the root on. -/
  file : Stands fs e.file
  /-- No earlier run has left a copy of what is to be made. -/
  fresh : e.tool ≠ .format → ∀ p, fs.resolve e.target = .ok p → t.scratch.copyOf p d = none
  /-- The configuration is another file than the one that is read, -/
  apart : ∀ config, e.config? = some config → ∀ p, fs.resolve config = .ok p → ¬ fs.Names e.file p
  /-- than the target, unless that is written anyway, -/
  kept : (craft e.tool (e.sheet viewed.look)).written = none →
    ∀ config, e.config? = some config → ∀ p, fs.resolve config = .ok p → ¬ fs.Names e.target p
  /-- and than the archives that it names, -/
  foreign : ∀ config, e.config? = some config → ∀ p, fs.resolve config = .ok p →
    ∀ entry ∈ (e.configIn viewed.look).entries, ¬ fs.Names entry.2 p
  /-- whose copies can be named on a line. -/
  legible : ∀ entry ∈ (e.configIn viewed.look).entries, Text.Tidy (t.mirror fs entry.2).toList

/-- What an errand needs was handed over under other names. -/
structure Handed (t : HostToolchain World) (mount : Option (Asset.Mount World)) (e : Errand)
    (a b : FileSystem × World) (hostArgs outputs : List String) : Prop where
  args : hostArgs = (e.respelled (t.mirror a.1)).args
  outputs : outputs = [e.target]
  file : ∃ p, a.1.resolve e.file = .ok p ∧ t.scratch.Faithful b p
  /-- The copy of the configuration names the copies of the archives. -/
  config : ∀ config, e.config? = some config →
    (t.scratch.disk.get b.2).look (t.mirror a.1 config) =
      some ((e.configIn b.1.look).mapArchives (t.mirror a.1)).toText.toUTF8
  archives : ∀ entry ∈ (e.configIn b.1.look).entries, ∃ p, a.1.resolve entry.2 = .ok p ∧
    t.scratch.Faithful b p
  stocked : ∃ copied, Stocked t.scratch mount copied copied a b ∧ ∀ p : Path, p.parts ∈ copied →
    t.scratch.Faithful b p ∨ ∃ config, e.config? = some config ∧ a.1.Names config p

theorem handed_format (hs : t.scratch.disk.Lawful) (hapart : t.scratch.Apart mount)
    (ha : t.scratch.Ready a) {file : String} (hfile : Stands a.1 file)
    (h : Yields (t.prepare mount .format (Errand.format file).args) a (hostArgs, outputs) b) :
    t.Handed mount (.format file) a b hostArgs outputs := by
  have hflag : ∀ flag ∈ ["-w"],
      flag.toList.head? ≠ some '/' ∧ flag ≠ "-importcfg" ∧ flag ≠ "-o" := by
    decide
  obtain ⟨more, rfl, hrest⟩ := of_yields_prepare_flags hflag h
  obtain ⟨p, hp, rfl, rfl, hstocked, hfaithful⟩ := of_yields_prepare_file hs hapart ha hfile hrest
  refine ⟨?_, rfl, ⟨p, hp, hfaithful⟩, nofun, nofun, [p.parts], hstocked, fun q hq => Or.inl ?_⟩
  · rw [Errand.respelled, mirror_of_ok hp]
    rfl
  · exact hfaithful.congr (List.mem_singleton.1 hq)

theorem handed_build (hs : t.scratch.disk.Lawful) (hapart : t.scratch.Apart mount)
    (ha : t.scratch.Ready a) {linker : Bool} {target config file : String}
    (hfit : t.Fit craft (.build linker target config file) a.1 b.1 (t.scratch.disk.get a.2))
    (h : Yields (t.prepare mount (Errand.build linker target config file).tool
      (Errand.build linker target config file).args) a (hostArgs, outputs) b) :
    t.Handed mount (.build linker target config file) a b hostArgs outputs := by
  have htool : (Errand.build linker target config file).tool ≠ .format := by
    cases linker <;> exact nofun
  generalize (Errand.build linker target config file).tool = tool at h htool
  obtain ⟨_, a₁, more, outputs', htarget, hflags, rfl, rfl⟩ := of_yields_prepare_target h
  obtain ⟨o, ho, rfl, hfirst⟩ := of_yields_exportTarget mount hs ha htarget
  obtain ⟨inputs, rfl, hinputs⟩ := of_yields_prepare_flags (flags_plain linker) hflags
  obtain ⟨_, a₂, more, hconfig, hlast, rfl⟩ := of_yields_prepare_config hinputs
  obtain ⟨q, bytes, copied, hq, rfl, hexported⟩ :=
    of_yields_exportConfig hs hapart hfirst.ready hconfig
  -- nothing before has moved the working directory
  have hresolve₁ := hfirst.nodes.resolve
  have hresolve₂ := hexported.stocked.nodes.resolve
  rw [hresolve₁] at hq
  have hfile : Stands a₂.1 file := by
    obtain ⟨hslash, p, hp, htrailing, hbytes⟩ := hfit.file
    refine ⟨hslash, p, ?_, htrailing, ?_⟩
    · rw [hresolve₂, hresolve₁]
      exact hp
    · rw [hexported.stocked.kept p (by rwa [hfirst.kept p hbytes]), hfirst.kept p hbytes]
      exact hbytes
  obtain ⟨p, hp, rfl, houtputs, hstocked, hfaithful⟩ :=
    of_yields_prepare_file hs hapart hexported.stocked.ready hfile hlast
  rw [if_neg htool] at houtputs
  subst houtputs
  rw [hresolve₂, hresolve₁] at hp
  have hother : q.parts ∉ [p.parts] := by
    intro hmem
    exact hfit.apart config rfl q hq ⟨p, hp, (List.mem_singleton.1 hmem).symm⟩
  have hcontent : b.1.look config = some bytes := by
    rw [FileSystem.look_of_resolve ((hstocked.nodes.resolve config).trans
      ((hresolve₂ config).trans ((hresolve₁ config).trans hq))), ← hexported.content]
    exact hstocked.kept q (by rw [hexported.content]; rfl)
  have hconfig : (Errand.build linker target config file).configIn b.1.look =
      ImportConfig.parse (Text.ofUtf8Lossy bytes) := by
    simp [Errand.configIn, Errand.config?, hcontent]
  have hforeign := hfit.foreign config rfl q hq
  rw [hconfig] at hforeign
  have hmirror : ∀ text, t.mirror a₁.1 text = t.mirror a.1 text := mirror_congr hfirst.nodes
  have harchive : ∀ entry ∈ (ImportConfig.parse (Text.ofUtf8Lossy bytes)).entries,
      ∃ r, a.1.resolve entry.2 = .ok r ∧ t.scratch.Faithful b r := by
    intro entry hentry
    obtain ⟨r, hr, -, hcopy⟩ := hexported.faithful entry hentry
    rw [hresolve₁] at hr
    refine ⟨r, hr, (hcopy fun heq => ?_).again hfaithful hstocked⟩
    exact hforeign entry hentry ⟨r, hr, heq⟩
  refine ⟨?_, rfl, ⟨p, hp, hfaithful⟩, ?_, hconfig ▸ harchive, copied ++ [q.parts] ++ [p.parts], ?_,
    fun r hr => ?_⟩
  · rw [Errand.respelled, mirror_of_ok ho, mirror_of_ok hq, mirror_of_ok hp]
    rfl
  · rintro _ ⟨⟩
    rw [mirror_of_ok hq, hconfig, Disk.look_eq_some_iff]
    refine hstocked.reads hother ?_
    rw [hexported.copy, ImportConfig.mapArchives_congr fun entry _ => hmirror entry.2]
  · have hconfigured : Stocked t.scratch mount (copied ++ [q.parts]) (copied ++ [q.parts]) a₁ a₂ :=
      hexported.stocked.mono (by simp)
    exact hfirst.trans (hconfigured.trans hstocked)
  · rcases List.mem_append.1 hr with hr | hr
    · rcases List.mem_append.1 hr with hr | hr
      · obtain ⟨entry, hentry, r', hr', hparts⟩ := hexported.only r.parts hr
        obtain ⟨r'', hr'', hcopy⟩ := harchive entry hentry
        rw [hresolve₁, hr''] at hr'
        cases hr'
        exact Or.inl (hcopy.congr hparts.symm)
      · exact Or.inr ⟨config, rfl, q, hq, (List.mem_singleton.1 hr).symm⟩
    · exact Or.inl (hfaithful.congr (List.mem_singleton.1 hr))

theorem handed_of_yields (hs : t.scratch.disk.Lawful) (hapart : t.scratch.Apart mount)
    (ha : t.scratch.Ready a) (hfit : t.Fit craft e a.1 b.1 (t.scratch.disk.get a.2))
    (h : Yields (t.prepare mount e.tool e.args) a (hostArgs, outputs) b) :
    t.Handed mount e a b hostArgs outputs := by
  cases e with
  | format file => exact handed_format hs hapart ha hfit.file h
  | build linker target config file => exact handed_build hs hapart ha hfit h

/-! ## What becomes of an errand -/

/-- What there is when the arguments of an errand are ready. -/
def prepared (t : HostToolchain World) (mount : Option (Asset.Mount World)) (e : Errand)
    (a : FileSystem × World) : FileSystem × World :=
  (resultOf (t.prepare mount e.tool e.args) a).2

theorem grounded_prepared (hs : t.scratch.disk.Lawful) (hapart : t.scratch.Apart mount)
    (ha : t.scratch.Ready a) (e : Errand) :
    (t.scratch.disk.get (t.prepared mount e a).2).Grounded := by
  obtain ⟨_, _, hstocked⟩ := (stocks_prepare hs hapart e.tool e.args a).stocked ha
  exact hstocked.ready.grounded

/-- If the program ends, it has gone by what it sees on its errand and has written nothing but its
    target. -/
def Obeys (t : HostToolchain World) (craft : Tool → Sheet → Product) (e : Errand) (patience : Nat)
    (d : Disk) : Prop :=
  ∀ f d', t.launch e.tool e.args patience d = (.ok (.finished f), d') →
    f = (craft e.tool (e.sheet d.look)).finished ∧
    d'.look e.target = (craft e.tool (e.sheet d.look)).written.or (d.look e.target)

/-- An errand on the host does to the file system what the tool would have done to it there. -/
structure Simulated (t : HostToolchain World) (mount : Option (Asset.Mount World))
    (craft : Tool → Sheet → Product) (e : Errand) (patience : Nat) (a viewed : FileSystem × World)
    (status : Int) (left : Nat) (later : FileSystem) : Prop where
  /-- The arguments name the copies for the files, -/
  ready : Yields (t.prepare mount e.tool e.args) a
    ((e.respelled (t.mirror a.1)).args, [e.target]) viewed
  /-- and each is where it was. -/
  args : List.Forall₂ (fun arg hostArg => hostArg = arg ∨ hostArg = t.mirror a.1 arg) e.args
    (e.respelled (t.mirror a.1)).args
  /-- What it sees is what is in the file system, -/
  seen : (e.respelled (t.mirror a.1)).sheet (t.scratch.disk.get viewed.2).look = e.sheet viewed.1.look
  /-- and nothing of it is missing. -/
  present : (e.sheet viewed.1.look).file.isSome ∧
    ∀ entry ∈ (e.sheet viewed.1.look).imports, entry.2.isSome
  /-- The configuration that it reads binds the same imports to the copies of their archives. -/
  config : ∀ config, e.config? = some config →
    (t.scratch.disk.get viewed.2).look (t.mirror a.1 config) =
      some ((e.configIn viewed.1.look).mapArchives (t.mirror a.1)).toText.toUTF8
  /-- To see it, assets may have been fetched, but what was there has been kept. -/
  kept : ∀ p, (a.1.bytesAt p).isSome → viewed.1.bytesAt p = a.1.bytesAt p
  fetched : ∀ p bytes, a.1.bytesAt p = none → viewed.1.bytesAt p = some bytes →
    ∃ m world, mount = some m ∧ m.covers p = true ∧ (m.fetch world p.toString).1 = .ok bytes
  nodes : OnlyNodes a.1 viewed.1
  status : status = statusOf (craft e.tool (e.sheet viewed.1.look)).finished ∧
    left = patience - (craft e.tool (e.sheet viewed.1.look)).finished.duration
  /-- What the tool has written is put at its target, and what it has printed is handed on. If it
      has written nothing, the target is put back as it was or not at all. -/
  state : ∃ p, a.1.resolve e.target = .ok p ∧ ∃ bytes,
    (bytes = (craft e.tool (e.sheet viewed.1.look)).written ∨
      (craft e.tool (e.sheet viewed.1.look)).written = none ∧ bytes = viewed.1.bytesAt p) ∧
    later = t.withPrinted (craft e.tool (e.sheet viewed.1.look)).finished
      (viewed.1.receive p.toString bytes)
  /-- So the target holds what the tool has written, -/
  target : ∀ p, a.1.Names e.target p → later.bytesAt p =
    (craft e.tool (e.sheet viewed.1.look)).written.or (viewed.1.bytesAt p)
  /-- and no other file has changed. -/
  others : ∀ p, ¬ a.1.Names e.target p → later.bytesAt p = viewed.1.bytesAt p

namespace Handed

/-- What a program sees on an errand is what is in the file system. -/
theorem seen (h : t.Handed mount e a b hostArgs outputs)
    (hfit : t.Fit craft e a.1 b.1 (t.scratch.disk.get a.2)) :
    (e.respelled (t.mirror a.1)).sheet (t.scratch.disk.get b.2).look = e.sheet b.1.look := by
  obtain ⟨copied, hstocked, -⟩ := h.stocked
  have hlook : ∀ {text : String} {p : Path}, a.1.resolve text = .ok p → t.scratch.Faithful b p →
      (t.scratch.disk.get b.2).look (t.mirror a.1 text) = b.1.look text := by
    rintro text p hp ⟨data, hbytes, hread⟩
    rw [mirror_of_ok hp, Disk.look_eq_some_iff.2 hread,
      FileSystem.look_of_resolve ((hstocked.nodes.resolve text).trans hp), hbytes]
  have hconfig : (e.respelled (t.mirror a.1)).configIn (t.scratch.disk.get b.2).look =
      (e.configIn b.1.look).mapArchives (t.mirror a.1) := by
    cases hsome : e.config? with
    | none =>
      simp [Errand.configIn, hsome, ImportConfig.mapArchives]
    | some config =>
      have hread := h.config config hsome
      have hparse : ∃ text, e.configIn b.1.look = ImportConfig.parse text := by
        simp only [Errand.configIn, hsome, Option.bind_some]
        cases b.1.look config with
        | none => exact ⟨"", rfl⟩
        | some bytes => exact ⟨_, rfl⟩
      obtain ⟨text, htext⟩ := hparse
      have hlegible := hfit.legible
      rw [htext] at hread hlegible ⊢
      rw [Errand.configIn, Errand.respelled_config?, hsome, Option.map_some, Option.bind_some, hread,
        Option.map_some, Option.getD_some, Text.ofUtf8Lossy_toUTF8,
        ImportConfig.parse_mapArchives hlegible]
  obtain ⟨p, hp, hfaithful⟩ := h.file
  rw [Errand.sheet, Errand.sheet, hconfig, Errand.respelled_file, hlook hp hfaithful]
  congr 1
  rw [ImportConfig.mapArchives, List.map_map]
  refine List.map_congr_left fun entry hentry => ?_
  obtain ⟨q, hq, hcopy⟩ := h.archives entry hentry
  exact congrArg (Prod.mk entry.1) (hlook hq hcopy)

/-- Nothing of it is missing. -/
theorem present (h : t.Handed mount e a b hostArgs outputs) : (e.sheet b.1.look).file.isSome ∧
    ∀ entry ∈ (e.sheet b.1.look).imports, entry.2.isSome := by
  obtain ⟨copied, hstocked, -⟩ := h.stocked
  have hlook : ∀ {text : String} {p : Path}, a.1.resolve text = .ok p → t.scratch.Faithful b p →
      (b.1.look text).isSome := by
    rintro text p hp ⟨data, hbytes, -⟩
    rw [FileSystem.look_of_resolve ((hstocked.nodes.resolve text).trans hp), hbytes]
    rfl
  obtain ⟨p, hp, hfaithful⟩ := h.file
  refine ⟨hlook hp hfaithful, fun entry hentry => ?_⟩
  obtain ⟨old, hold, rfl⟩ := List.mem_map.1 hentry
  obtain ⟨q, hq, hcopy⟩ := h.archives old hold
  exact hlook hq hcopy

/-- What the program finds at its target is what is there in the file system. -/
theorem found (h : t.Handed mount e a b hostArgs outputs)
    (hfit : t.Fit craft e a.1 b.1 (t.scratch.disk.get a.2))
    (hnone : (craft e.tool (e.sheet b.1.look)).written = none) {p : Path}
    (hp : a.1.resolve e.target = .ok p) {data : ByteArray}
    (hread : (t.scratch.disk.get b.2).look (t.scratch.hostPath p) = some data) :
    b.1.bytesAt p = some data := by
  rw [Disk.look_eq_some_iff] at hread
  obtain ⟨copied, hstocked, hcopied⟩ := h.stocked
  have hfaithful : t.scratch.Faithful b p := by
    by_cases hformat : e.tool = .format
    · obtain ⟨q, hq, hcopy⟩ := h.file
      cases e with
      | format file =>
        cases hp.symm.trans hq
        exact hcopy
      | build linker => cases linker <;> cases hformat
    · have hmem : p.parts ∈ copied := by
        by_contra hmem
        have hfile := copyOf_eq_some_iff.1 (copyOf_of_read hread)
        rw [hstocked.place] at hfile
        have hearlier := hstocked.disk.file (List.prefix_append _ _) (by simpa using hmem) hfile
        cases (hfit.fresh hformat p hp).symm.trans (copyOf_eq_some_iff.2 hearlier)
      refine (hcopied p hmem).resolve_right ?_
      rintro ⟨config, hconfig, q, hq, hparts⟩
      exact hfit.kept hnone config hconfig q hq ⟨p, hp, hparts.symm⟩
  obtain ⟨data', hbytes, hread'⟩ := hfaithful
  cases hread.symm.trans hread'
  exact hbytes

end Handed

/-- A run that has ended has simulated its errand. -/
theorem simulated (hs : t.scratch.disk.Lawful) (hapart : t.scratch.Apart mount)
    (ha : t.scratch.Ready a) {patience : Nat}
    (hfit : t.Fit craft e a.1 (t.prepared mount e a).1 (t.scratch.disk.get a.2))
    (hobeys : t.Obeys craft (e.respelled (t.mirror a.1)) patience
      (t.scratch.disk.get (t.prepared mount e a).2))
    {status : Int} {left : Nat} {later : FileSystem × World}
    (hrun : t.toolchain.run mount e.tool e.args patience a.1 a.2 = (.exited status left, later)) :
    t.Simulated mount craft e patience a (t.prepared mount e a) status left later.1 := by
  have hcourse := t.course mount e.tool e.args patience a.1 a.2
  rw [hrun] at hcourse
  cases hcourse with
  | @exited hostArgs outputs b c f d hprepare hpatience hlaunch hback =>
  have hb : t.prepared mount e a = b := by
    rw [prepared, show resultOf _ a = _ from hprepare]
  rw [hb] at hfit hobeys ⊢
  have hhanded := handed_of_yields hs hapart ha hfit hprepare
  have hseen := hhanded.seen hfit
  obtain ⟨copied, hstocked, -⟩ := hhanded.stocked
  rw [hhanded.outputs] at hback
  obtain ⟨found, himport⟩ := of_yields_fetchBack_singleton hback
  obtain ⟨p, hp, hc, hput⟩ := of_yields_importFile himport
  rw [hstocked.nodes.resolve] at hp
  obtain rfl : c = _ := hc
  -- the program has got the errand with the names of the copies
  rw [hhanded.args] at hlaunch
  obtain ⟨hfinished, hwritten⟩ := hobeys f d (by rw [Errand.respelled_tool]; exact hlaunch)
  rw [hseen, Errand.respelled_tool] at hfinished hwritten
  rw [Errand.respelled_target, mirror_of_ok hp] at hwritten
  rw [hs.get_set, hwritten] at hput ⊢
  have hreachable := hstocked.ready.reachable
  have hfound := fun hnone => @Handed.found _ _ _ _ _ _ _ _ _ hhanded hfit hnone p hp
  generalize hproduct : craft e.tool (e.sheet b.1.look) = product at hfinished hput hfound ⊢
  generalize hleft : product.written.or ((t.scratch.disk.get b.2).look (t.scratch.hostPath p)) =
    bytes at hput ⊢
  have hbytes : bytes = product.written ∨ product.written = none ∧ bytes = b.1.bytesAt p := by
    cases hwrote : product.written with
    | some data =>
      rw [hwrote] at hleft
      exact Or.inl hleft.symm
    | none =>
      rw [hwrote, Option.none_or] at hleft
      cases hlook : (t.scratch.disk.get b.2).look (t.scratch.hostPath p) with
      | none => exact Or.inl (hleft.symm.trans hlook)
      | some data => exact Or.inr ⟨rfl, (hleft.symm.trans hlook).trans (hfound hwrote hlook).symm⟩
  have hreceive := fun q => FileSystem.bytesAt_receive (q := q) hreachable hput
  rw [hhanded.args, hhanded.outputs] at hprepare
  refine ⟨hprepare, e.forall₂_args _, hseen, hhanded.present, hhanded.config, hstocked.kept,
    hstocked.fetched, hstocked.nodes, ?_, ⟨p, hp, bytes, ?_, ?_⟩, fun q hq => ?_, fun q hq => ?_⟩
  · rw [hproduct, ← hfinished]
    exact ⟨rfl, rfl⟩
  · rw [hproduct]
    exact hbytes
  · rw [hproduct, ← hfinished]
  · obtain ⟨p', hp', hparts⟩ := hq
    cases hp.symm.trans hp'
    rw [hproduct]
    refine ((hreceive q).1 hparts.symm).trans ?_
    rcases hbytes with rfl | ⟨hnone, rfl⟩
    · rfl
    · rw [hnone, FileSystem.bytesAt_eq_of_parts _ hparts, Option.none_or, Option.or_self]
  · exact (hreceive q).2 fun hparts => hq ⟨p, hp, hparts.symm⟩

/-! ## A tool that obeys -/

/-- The errand that a program is sent on. -/
def errandOf : List String → Option Errand
  | ["-w", file] => some (.format file)
  | ["tool", _, "-o", target, "-importcfg", config, file] => some (.build true target config file)
  | _ => none

/-- A program that goes by what it sees. -/
def craftsman (craft : Tool → Sheet → Product) : Host.Launcher where
  launch request d :=
    match errandOf request.args with
    | none => (.error (.system .invalid), d)
    | some e =>
      let product := craft e.tool (e.sheet d.look)
      match product.written.map fun data => d.alter e.target Disk.fileMode fun _ => data with
      | none => (.ok (.finished product.finished), d)
      | some (.ok d') => (.ok (.finished product.finished), d')
      | some (.error cause) => (.error cause, d)

theorem obeys_craftsman (ht : t.launcher = craftsman craft) (e : Errand) (patience : Nat) {d : Disk}
    (hd : d.Grounded) : t.Obeys craft e patience d := by
  intro f d' hlaunch
  have herrand : errandOf (t.launchOf e.tool e.args patience d).args = some e ∨
      errandOf (t.launchOf e.tool e.args patience d).args = none := by
    cases e with
    | format file => exact Or.inl rfl
    | build linker => cases linker <;> first | exact Or.inl rfl | exact Or.inr rfl
  rw [launch, ht] at hlaunch
  simp only [craftsman] at hlaunch
  rcases herrand with herrand | herrand <;> rw [herrand] at hlaunch
  · cases hwritten : (craft e.tool (e.sheet d.look)).written with
    | none =>
      simp only [hwritten, Option.map_none] at hlaunch
      cases hlaunch
      exact ⟨rfl, rfl⟩
    | some data =>
      simp only [hwritten, Option.map_some] at hlaunch
      cases halter : d.alter e.target Disk.fileMode fun _ => data with
      | error cause =>
        rw [halter] at hlaunch
        cases hlaunch
      | ok d₁ =>
        rw [halter] at hlaunch
        cases hlaunch
        exact ⟨rfl, Disk.look_eq_some_iff.2 (Disk.alter_eq_ok hd halter).2⟩
  · cases hlaunch

/-- A craft that puts the file and the archives together, if there is a file. -/
def bundle (_ : Tool) (sheet : Sheet) : Product :=
  ⟨sheet.file.map fun file => (sheet.imports.filterMap Prod.snd).foldl (· ++ ·) file ++ "!".toUTF8,
    ⟨.exited 0, "bundled".toUTF8, .empty, 1⟩⟩

/-- The bundling tools, with a scratch directory. -/
def bundling : HostToolchain Disk := ⟨craftsman bundle, "go", ⟨"/scratch", .whole⟩⟩

/-- A file, an archive, and a configuration that names it. -/
def linkable : FileSystem × Disk :=
  (((FileSystem.performAll (none : Option (Asset.Mount Disk)) (.empty ⟨0, 0⟩) Disk.empty
    [.writeFile "/main.a" "m".toUTF8, .writeFile "/fmt.a" "f".toUTF8,
      .writeFile "/importcfg" "packagefile fmt=/fmt.a\n".toUTF8]).2.1), .empty)

/-- Two names that are resolved to different paths are names of different files. -/
theorem not_names_of_ne {fs : FileSystem} {text other : String} {p : Path}
    (hne : (fs.resolve text).toOption.map Path.parts ≠ (fs.resolve other).toOption.map Path.parts)
    (hp : fs.resolve other = .ok p) : ¬ fs.Names text p := by
  rintro ⟨q, hq, hparts⟩
  rw [hq, hp] at hne
  exact hne (congrArg some hparts)

/-- An empty disk holds no copy. -/
theorem copyOf_empty (p : Path) : bundling.scratch.copyOf p Disk.empty = none := by
  have hplace : bundling.scratch.place Disk.empty = ["scratch"] := by decide +kernel
  rw [Scratch.copyOf, hplace]
  rfl

/-- To link them. -/
def linking : Errand := .build true "/out" "/importcfg" "/main.a"

/-- What is linked is the file with the archive, and this is what is there afterwards. -/
theorem simulated_bundle : ∃ later : FileSystem × Disk,
    bundling.toolchain.run none linking.tool linking.args 9 linkable.1 linkable.2 =
      (.exited 0 8, later) ∧
    bundling.Simulated none bundle linking 9 linkable (bundling.prepared none linking linkable) 0 8
      later.1 ∧
    later.1.look "/out" = some "mf!".toUTF8 := by
  have hended :
      let result := bundling.toolchain.run none linking.tool linking.args 9 linkable.1 linkable.2
      result.1 = .exited 0 8 ∧ result.2.1.look "/out" = some "mf!".toUTF8 := by
    decide +kernel
  rcases hrun : bundling.toolchain.run none linking.tool linking.args 9 linkable.1 linkable.2
    with ⟨run, later⟩
  rw [hrun] at hended
  obtain ⟨rfl, hout⟩ := hended
  have hready : bundling.scratch.Ready linkable := ⟨.performAll _ _ _ (.new ⟨0, 0⟩), rfl⟩
  have hentries : (linking.configIn (bundling.prepared none linking linkable).1.look).entries =
      [("fmt", "/fmt.a")] := by
    decide +kernel
  have hgrounded := grounded_prepared ⟨fun _ _ => rfl⟩ (apart_none bundling.scratch) hready linking
  have hstands : Stands linkable.1 "/main.a" := by
    refine ⟨rfl, ⟨["main.a"], false, by decide, nofun⟩, ?_, rfl, ?_⟩ <;> decide +kernel
  have hfit : bundling.Fit bundle linking linkable.1
      (bundling.prepared none linking linkable).1 linkable.2 := by
    refine ⟨hstands, fun _ p _ => copyOf_empty p, ?_, ?_, ?_, ?_⟩
    · rintro _ ⟨⟩ p hp
      exact not_names_of_ne (by decide +kernel) hp
    · rintro - _ ⟨⟩ p hp
      exact not_names_of_ne (by decide +kernel) hp
    · rintro _ ⟨⟩ p hp entry hentry
      rw [hentries, List.mem_singleton] at hentry
      subst hentry
      exact not_names_of_ne (by decide +kernel) hp
    · intro entry hentry
      rw [hentries, List.mem_singleton] at hentry
      subst hentry
      have hmirror : bundling.mirror linkable.1 "/fmt.a" = "/scratch/fmt.a" := by decide +kernel
      rw [hmirror]
      decide
  refine ⟨later, rfl, ?_, hout⟩
  exact simulated ⟨fun _ _ => rfl⟩ (apart_none _) hready hfit (obeys_craftsman rfl _ 9 hgrounded) hrun

/-- An asset that has not been fetched. -/
def shelf : Asset.Mount Disk where
  roots := ["/lib/"]
  fetch world _ := (.ok "a".toUTF8, world)

/-- A file that is to be formatted but was not fetched yet is not handed over, so the tool sees none
    and writes none, though it would have read and written it in the file system. -/
theorem format_misses_unfetched :
    (∀ e patience d, d.Grounded → bundling.Obeys bundle e patience d) ∧
    bundling.scratch.Apart (some shelf) ∧ bundling.scratch.Ready (.empty ⟨0, 0⟩, Disk.empty) ∧
    ((FileSystem.empty ⟨0, 0⟩).readAll (some shelf) Disk.empty "/lib/main.go").1.toOption =
      some "a".toUTF8 ∧
    (resultOf (bundling.prepare (some shelf) .format ["-w", "/lib/main.go"])
      (.empty ⟨0, 0⟩, Disk.empty)).1.toOption = some (["-w", "/lib/main.go"], []) ∧
    (bundling.toolchain.run (some shelf) .format ["-w", "/lib/main.go"] 9 (.empty ⟨0, 0⟩)
      Disk.empty).1 = .exited 0 8 ∧
    (bundle .format ⟨[], some "a".toUTF8⟩).written = some "a!".toUTF8 ∧
    (bundling.toolchain.run (some shelf) .format ["-w", "/lib/main.go"] 9 (.empty ⟨0, 0⟩)
      Disk.empty).2.1.look "/lib/main.go" = none := by
  refine ⟨fun e patience d hd => obeys_craftsman rfl e patience hd, ?_,
    ⟨.new ⟨0, 0⟩, rfl⟩, ?_, ?_, ?_, ?_, ?_⟩
  · rintro m ⟨⟩ world key
    exact .refl _ _
  all_goals decide +kernel

end HostToolchain

end Workbench
