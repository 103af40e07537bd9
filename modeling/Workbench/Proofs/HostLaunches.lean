import Workbench.Proofs.HostRuns

set_option autoImplicit false

/-! # Launches of the tools of the host

Once the arguments are ready the program of a tool is launched. What it has done to the disk is done
at once, and if it has ended, the files that it may have written are copied back and what it printed
is handed on. So the file system takes from the disk nothing but these files. -/

namespace Workbench

open Host (Disk Job)

variable {World α : Type}

/-- The bytes that can be read at a path of the host. -/
def Host.Disk.look (d : Disk) (path : String) : Option ByteArray := (d.read path).toOption

theorem Host.Disk.look_eq_some_iff {d : Disk} {path : String} {data : ByteArray} :
    d.look path = some data ↔ d.read path = .ok data := toOption_eq_some_iff

namespace FileSystem

variable {fs : FileSystem} {p q : Path}

/-- Write a file, if there is anything to write. -/
def receive (fs : FileSystem) (text : String) : Option ByteArray → FileSystem
  | none => fs
  | some data => (fs.writeFile text data).2

/-- A file that is written gets the bytes, or stays as it is. -/
theorem bytesAt_writeFile (hp : p.parts ≠ []) (text : String) (data : ByteArray) :
    (fs.writeFile text data).2.bytesAt p = fs.bytesAt p ∨
      fs.Names text p ∧ (fs.writeFile text data).2.bytesAt p = some data := by
  unfold writeFile
  split
  · exact Or.inl rfl
  next q hq =>
  split
  · exact Or.inl rfl
  · exact (bytesAt_placeFile hp data).imp_right fun ⟨hparts, hsome⟩ => ⟨⟨q, hq, hparts⟩, hsome⟩

/-- A file that was written has the bytes. -/
theorem bytesAt_of_writeFile (hp : p.parts ≠ []) {text : String} {data : ByteArray}
    (hnames : fs.Names text p) (h : (fs.writeFile text data).1 = .ok ()) :
    (fs.writeFile text data).2.bytesAt p = some data := by
  obtain ⟨q, hq, hparts⟩ := hnames
  unfold writeFile at h ⊢
  rw [hq] at h ⊢
  dsimp only at h ⊢
  split_ifs at h ⊢
  unfold placeFile at h ⊢
  rcases hmade : fs.makeParents q with ⟨e | _, fs'⟩ <;> rw [hmade] at h
  · cases h
  · dsimp only
    rw [bytesAt_putFile hp, if_pos hparts]

/-- The directory at the root is not written. -/
theorem Reachable.parts_ne_nil_of_writeFile {fs : FileSystem} (h : Reachable fs) {text : String}
    {p : Path} {data : ByteArray} (hp : fs.resolve text = .ok p)
    (hok : (fs.writeFile text data).1 = .ok ()) : p.parts ≠ [] := by
  intro hnil
  obtain ⟨names, times, hroot⟩ := h.wellFormed.root
  have hkey : p.dirKey = "/" := Path.dirKey_inj (q := .root).2 hnil
  have hdir : fs.isDir p = true := by
    rw [isDir, hkey, hroot]
    rfl
  rw [FileSystem.writeFile, hp] at hok
  simp [hdir] at hok

namespace Scratch

variable {s : Scratch World} {world : World} {texts more : List String}
  {a b c : FileSystem × World}

/-! ## Copying back -/

/-- Files that texts name were copied back, and nothing else was done. -/
structure Returned (s : Scratch World) (texts : List String) (before after : FileSystem × World) :
    Prop where
  reachable : Reachable after.1
  world : after.2 = before.2
  nodes : OnlyNodes before.1 after.1
  files : ∀ p, after.1.bytesAt p = before.1.bytesAt p ∨ ∃ text ∈ texts, ∃ q data,
    before.1.resolve text = .ok q ∧ q.parts = p.parts ∧
    (s.disk.get before.2).read (s.hostPath q) = .ok data ∧ after.1.bytesAt p = some data

namespace Returned

theorem refl (texts : List String) (h : Reachable a.1) : s.Returned texts a a where
  reachable := h
  world := rfl
  nodes := .refl a.1
  files _ := Or.inl rfl

theorem trans (h : s.Returned texts a b) (h' : s.Returned texts b c) : s.Returned texts a c where
  reachable := h'.reachable
  world := h'.world.trans h.world
  nodes := h.nodes.trans h'.nodes
  files p := by
    rcases h'.files p with hsame | ⟨text, htext, q, data, hq, hparts, hread, hbytes⟩
    · rw [hsame]
      exact h.files p
    · rw [h.nodes.resolve] at hq
      rw [h.world] at hread
      exact Or.inr ⟨text, htext, q, data, hq, hparts, hread, hbytes⟩

theorem mono (h : s.Returned texts a b) (hmore : texts ⊆ more) : s.Returned more a b where
  reachable := h.reachable
  world := h.world
  nodes := h.nodes
  files p := (h.files p).imp_right fun ⟨text, htext, rest⟩ => ⟨text, hmore htext, rest⟩

/-- A file that is as its copy stays as its copy. -/
theorem stays (h : s.Returned texts a b) {p : Path} {data : ByteArray}
    (hread : (s.disk.get a.2).read (s.hostPath p) = .ok data)
    (hbytes : a.1.bytesAt p = some data) : b.1.bytesAt p = some data := by
  rcases h.files p with hsame | ⟨text, -, q, data', -, hparts, hread', hbytes'⟩
  · rw [hsame, hbytes]
  · rw [hostPath_congr s hparts, hread] at hread'
    cases hread'
    exact hbytes'

end Returned

/-- Files are copied back, provided the file system is one that can be. -/
def Returning (s : Scratch World) (texts : List String) (a b : FileSystem × World) : Prop :=
  Reachable a.1 → s.Returned texts a b

instance : IsPreorder (FileSystem × World) (s.Returning texts) where
  refl _ := .refl texts
  trans _ _ _ h h' ha := (h ha).trans (h' (h ha).reachable)

/-- Copying one file back is copying back what its text names, whatever comes of it. -/
theorem returned_importFile (ha : Reachable a.1) (text : String) :
    s.Returned [text] a (resultOf (s.importFile text) a).2 := by
  obtain ⟨fs, world⟩ := a
  have hcases := importing s text fs world
  rcases hresult : resultOf (s.importFile text) (fs, world) with ⟨result, state⟩
  rw [hresult] at hcases
  cases hcases with
  | nowhere | absent | unread => exact .refl _ ha
  | @written q data hq hread =>
    obtain ⟨q', hq', hparts⟩ := resolve_toString fs q
    have hafter := ha.writeFile q.toString data
    refine ⟨hafter, rfl, .writeFile fs q.toString data, fun p => ?_⟩
    by_cases hp : p.parts = []
    · exact Or.inl ((hafter.bytesAt_root hp).trans (ha.bytesAt_root hp).symm)
    · refine (bytesAt_writeFile hp q.toString data).imp_right ?_
      rintro ⟨⟨q'', hq'', hparts'⟩, hbytes⟩
      rw [hq'] at hq''
      cases hq''
      exact ⟨text, List.mem_singleton_self text, q, data, hq, hparts ▸ hparts', hread, hbytes⟩

/-- Copying back without a failure is writing what can be read of the copy, if anything can. -/
theorem of_yields_importFile {fs : FileSystem} {world : World} {text : String} {found : Bool}
    (h : Yields (s.importFile text) (fs, world) found b) : ∃ p, fs.resolve text = .ok p ∧
      b = (fs.receive p.toString ((s.disk.get world).look (s.hostPath p)), world) ∧
      ∀ data, (s.disk.get world).look (s.hostPath p) = some data →
        (fs.writeFile p.toString data).1 = .ok () := by
  have hcases := importing s text fs world
  rw [show resultOf _ _ = (.ok found, b) from h] at hcases
  generalize hanswer : (Except.ok found, b) = answer at hcases
  cases hcases with
  | nowhere => cases hanswer
  | @absent p e hp hread =>
    have hnone : (s.disk.get world).look (s.hostPath p) = none := by rw [Disk.look, hread]; rfl
    cases hanswer
    exact ⟨p, hp, by rw [hnone]; rfl, by rw [hnone]; nofun⟩
  | unread => cases hanswer
  | @written p data hp hread =>
    have hsome : (s.disk.get world).look (s.hostPath p) = some data := by rw [Disk.look, hread]; rfl
    have hwritten : (fs.writeFile p.toString data).1 = .ok () := by
      cases hwrite : (fs.writeFile p.toString data).1 with
      | ok => rfl
      | error e =>
        rw [hwrite] at hanswer
        cases hanswer
    refine ⟨p, hp, ?_, ?_⟩
    · rw [hsome]
      exact congrArg Prod.snd hanswer
    · rw [hsome]
      rintro _ ⟨⟩
      exact hwritten

/-- What was copied back without a failure has the bytes of its copy. -/
theorem bytesAt_of_yields_importFile {text : String} {found : Bool} {p : Path}
    (hnames : a.1.Names text p) (hp : p.parts ≠ []) {data : ByteArray}
    (hread : (s.disk.get a.2).read (s.hostPath p) = .ok data)
    (h : Yields (s.importFile text) a found b) : b.1.bytesAt p = some data := by
  obtain ⟨fs, world⟩ := a
  obtain ⟨q, hq, hparts⟩ := hnames
  obtain ⟨q', hq', rfl, hwritten⟩ := of_yields_importFile h
  cases hq.symm.trans hq'
  obtain ⟨r, hr, hparts'⟩ := resolve_toString fs q
  have hsome : (s.disk.get world).look (s.hostPath q) = some data := by
    rw [Disk.look, hostPath_congr s hparts, hread]
    rfl
  rw [hsome]
  exact bytesAt_of_writeFile hp ⟨r, hr, hparts'.trans hparts⟩ (hwritten data hsome)

end Scratch

end FileSystem

namespace HostToolchain

open FileSystem (Scratch OnlyNodes Reachable)
open FileSystem.Scratch

variable {t : HostToolchain World} {mount : Option (Asset.Mount World)}
  {a b : FileSystem × World}

/-- Copy the files back that a program may have written. -/
def fetchBack (t : HostToolchain World) (outputs : List String) : Step World PUnit :=
  forIn outputs ⟨⟩ fun path _ => do
    let _ ← withScratch (t.scratch.importFile path)
    return .yield ⟨⟩

theorem returned_withScratch {outputs : List String} {text : String} (htext : text ∈ outputs) :
    Leads (t.scratch.Returning outputs) (withScratch (t.scratch.importFile text)) := by
  intro b hb
  rw [resultOf_withScratch]
  exact (returned_importFile hb text).mono (by simpa using htext)

theorem returned_fetchBack (outputs : List String) :
    Leads (t.scratch.Returning outputs) (t.fetchBack outputs) := by
  refine Leads.forIn (fun text htext _ => ?_) ⟨⟩
  exact (returned_withScratch htext).bind fun _ => leads_pure _

/-- One output is copied back. -/
theorem of_yields_fetchBack_singleton {text : String} {u : PUnit}
    (h : Yields (t.fetchBack [text]) a u b) :
    ∃ found, Yields (t.scratch.importFile text) a found b := by
  cases rounds_of_forIn h with
  | cons himport hrest =>
    cases hrest
    exact ⟨_, yields_withScratch_iff.1 himport⟩

/-- Every file that was copied back without a failure has the bytes of its copy, also where several
    texts name it. -/
theorem bytesAt_of_yields_fetchBack {outputs : List String} {u : PUnit} (ha : Reachable a.1)
    (h : Yields (t.fetchBack outputs) a u b) {text : String} (htext : text ∈ outputs) {p : Path}
    (hnames : a.1.Names text p) (hp : p.parts ≠ []) {data : ByteArray}
    (hread : (t.scratch.disk.get a.2).read (t.scratch.hostPath p) = .ok data) :
    b.1.bytesAt p = some data := by
  have hrounds := rounds_of_forIn h
  clear h
  induction hrounds with
  | nil => cases htext
  | @cons first outputs found a a₁ b himport hrest ih =>
    rw [yields_withScratch_iff] at himport
    have hreturned := returned_importFile (s := t.scratch) ha first
    rw [show resultOf _ _ = (.ok found, a₁) from himport] at hreturned
    rcases List.mem_cons.1 htext with rfl | htext
    · have hbytes := bytesAt_of_yields_importFile hnames hp hread himport
      have hlater := hrest.leads (fun _ => returned_withScratch) hreturned.reachable
      refine hlater.stays ?_ hbytes
      rw [hreturned.world]
      exact hread
    · obtain ⟨q, hq, hparts⟩ := hnames
      refine ih hreturned.reachable htext ⟨q, (hreturned.nodes.resolve text).trans hq, hparts⟩ ?_
      rw [hreturned.world]
      exact hread

/-- The request with which the program of a tool is launched. -/
def launchOf (t : HostToolchain World) (tool : Tool) (args : List String) (patience : Nat)
    (d : Disk) : Host.Launch :=
  ⟨(t.program d tool).1, (t.program d tool).2 ++ args, some t.scratch.root,
    Package.GoCommand.target, patience⟩

/-- What comes of launching the program of a tool. -/
def launch (t : HostToolchain World) (tool : Tool) (args : List String) (patience : Nat)
    (d : Disk) : Except Host.Error Host.Launched × Disk :=
  t.launcher.launch (t.launchOf tool args patience d) d

/-- What is done once a program has ended. -/
def collect (t : HostToolchain World) (outputs : List String) (f : Host.Finished) (patience : Nat) :
    Step World (Option (Int × Nat)) := do
  t.fetchBack outputs
  t.handOn 1 f.stdout
  t.handOn 2 f.stderr
  return some ((f.ending.status?.map Int.ofNat).getD (-1), patience - f.duration)

theorem resultOf_steps {tool : Tool} {args hostArgs outputs : List String} {patience : Nat}
    (hprepare : Yields (t.prepare mount tool args) a (hostArgs, outputs) b)
    (hpatience : patience ≠ 0) :
    resultOf (t.steps mount tool args patience) a =
      match t.launch tool hostArgs patience (t.scratch.disk.get b.2) with
      | (.error e, d) =>
        (.error (.unavailable tool e.message), b.1, t.scratch.disk.set b.2 d)
      | (.ok .running, d) => (.ok none, b.1, t.scratch.disk.set b.2 d)
      | (.ok (.finished f), d) =>
        resultOf (t.collect outputs f patience) (b.1, t.scratch.disk.set b.2 d) := by
  have hget : resultOf (get : Step World (FileSystem × World)) b = (.ok b, b) := rfl
  rw [steps, resultOf_bind, show resultOf _ _ = (.ok (hostArgs, outputs), b) from hprepare,
    goOnWith]
  dsimp only
  rw [if_neg hpatience, resultOf_bind, hget, goOnWith]
  have hrun : t.scratch.disk.run (t.launcher.launch (t.launchOf tool hostArgs patience
      (t.scratch.disk.get b.2))) b.2 = ((t.launch tool hostArgs patience
        (t.scratch.disk.get b.2)).1, t.scratch.disk.set b.2 (t.launch tool hostArgs patience
          (t.scratch.disk.get b.2)).2) := rfl
  unfold launchOf at hrun
  rw [hrun]
  rcases t.launch tool hostArgs patience (t.scratch.disk.get b.2) with ⟨e | ⟨f | -⟩, d⟩ <;> rfl

/-- What is handed on of what a program has printed. -/
def printed (t : HostToolchain World) (bytes : ByteArray) : ByteArray :=
  (String.ofList (Text.removeAll t.scratch.root.toList (Text.ofUtf8Lossy bytes).toList)).toUTF8

/-- What a program has printed is handed on to the stream. -/
theorem resultOf_handOn {descriptor : Nat} (put : FileSystem → ByteArray → FileSystem)
    (hwrite : ∀ fs bytes, FileSystem.write fs descriptor bytes none =
      .ok (bytes.size, put fs bytes)) (hempty : ∀ fs, put fs .empty = fs)
    (bytes : ByteArray) (state : FileSystem × World) :
    resultOf (t.handOn descriptor bytes) state =
      (.ok (), put state.1 (t.printed bytes), state.2) := by
  unfold handOn printed
  generalize Text.removeAll t.scratch.root.toList (Text.ofUtf8Lossy bytes).toList = text
  cases text with
  | nil =>
    have hnothing : (String.ofList []).toUTF8 = ByteArray.empty := rfl
    rw [hnothing, hempty]
    rfl
  | cons c text =>
    have hget : resultOf (get : Step World (FileSystem × World)) state = (.ok state, state) := rfl
    simp only [List.isEmpty_cons, Bool.not_false, if_true]
    rw [resultOf_bind, hget, goOnWith, hwrite]
    rfl

/-- What is printed comes after what was printed. -/
def withPrinted (t : HostToolchain World) (f : Host.Finished) (fs : FileSystem) : FileSystem :=
  { fs with stdout := fs.stdout ++ t.printed f.stdout, stderr := fs.stderr ++ t.printed f.stderr }

/-- The status with which a run ends. -/
def statusOf (f : Host.Finished) : Int := (f.ending.status?.map Int.ofNat).getD (-1)

theorem resultOf_collect (outputs : List String) (f : Host.Finished) (patience : Nat) :
    resultOf (t.collect outputs f patience) a =
      match resultOf (t.fetchBack outputs) a with
      | (.error e, b) => (.error e, b)
      | (.ok _, b) =>
        (.ok (some (statusOf f, patience - f.duration)), t.withPrinted f b.1, b.2) := by
  rw [collect, resultOf_bind]
  rcases resultOf (t.fetchBack outputs) a with ⟨e | _, b⟩
  · rfl
  · rw [goOnWith, resultOf_bind, resultOf_handOn
      (fun fs bytes => { fs with stdout := fs.stdout ++ bytes }) (fun _ _ => rfl)
      (fun _ => by simp), goOnWith, resultOf_bind, resultOf_handOn
      (fun fs bytes => { fs with stderr := fs.stderr ++ bytes }) (fun _ _ => rfl)
      (fun _ => by simp)]
    rfl

/-- How a run of a tool comes out. -/
inductive Course (t : HostToolchain World) (mount : Option (Asset.Mount World)) (tool : Tool)
    (args : List String) (patience : Nat) (a : FileSystem × World) :
    Toolchain.Run × FileSystem × World → Prop where
  | unready {e : Toolchain.Error} {b : FileSystem × World} :
      resultOf (t.prepare mount tool args) a = (.error e, b) →
      Course t mount tool args patience a (.failed e, b)
  | late {hostArgs outputs : List String} {b : FileSystem × World} :
      Yields (t.prepare mount tool args) a (hostArgs, outputs) b → patience = 0 →
      Course t mount tool args patience a (.running, b)
  | refused {hostArgs outputs : List String} {b : FileSystem × World} {e : Host.Error} {d : Disk} :
      Yields (t.prepare mount tool args) a (hostArgs, outputs) b → patience ≠ 0 →
      t.launch tool hostArgs patience (t.scratch.disk.get b.2) = (.error e, d) →
      Course t mount tool args patience a
        (.failed (.unavailable tool e.message), b.1, t.scratch.disk.set b.2 d)
  | running {hostArgs outputs : List String} {b : FileSystem × World} {d : Disk} :
      Yields (t.prepare mount tool args) a (hostArgs, outputs) b → patience ≠ 0 →
      t.launch tool hostArgs patience (t.scratch.disk.get b.2) = (.ok .running, d) →
      Course t mount tool args patience a (.running, b.1, t.scratch.disk.set b.2 d)
  | lost {hostArgs outputs : List String} {b c : FileSystem × World} {f : Host.Finished} {d : Disk}
      {e : Toolchain.Error} :
      Yields (t.prepare mount tool args) a (hostArgs, outputs) b → patience ≠ 0 →
      t.launch tool hostArgs patience (t.scratch.disk.get b.2) = (.ok (.finished f), d) →
      resultOf (t.fetchBack outputs) (b.1, t.scratch.disk.set b.2 d) = (.error e, c) →
      Course t mount tool args patience a (.failed e, c)
  | exited {hostArgs outputs : List String} {b c : FileSystem × World} {f : Host.Finished}
      {d : Disk} :
      Yields (t.prepare mount tool args) a (hostArgs, outputs) b → patience ≠ 0 →
      t.launch tool hostArgs patience (t.scratch.disk.get b.2) = (.ok (.finished f), d) →
      Yields (t.fetchBack outputs) (b.1, t.scratch.disk.set b.2 d) ⟨⟩ c →
      Course t mount tool args patience a
        (.exited (statusOf f) (patience - f.duration), t.withPrinted f c.1, c.2)

/-- How a run comes out by what its steps have answered. -/
def comesOut : Except Toolchain.Error (Option (Int × Nat)) → Toolchain.Run
  | .ok (some (status, left)) => .exited status left
  | .ok none => .running
  | .error e => .failed e

theorem course (t : HostToolchain World) (mount : Option (Asset.Mount World)) (tool : Tool)
    (args : List String) (patience : Nat) (fs : FileSystem) (world : World) :
    t.Course mount tool args patience (fs, world)
      (t.toolchain.run mount tool args patience fs world) := by
  have hrun : t.toolchain.run mount tool args patience fs world =
      (comesOut (resultOf (t.steps mount tool args patience) (fs, world)).1,
        (resultOf (t.steps mount tool args patience) (fs, world)).2) := by
    have hsteps : (t.steps mount tool args patience).run (fs, world) =
        resultOf (t.steps mount tool args patience) (fs, world) := rfl
    unfold toolchain
    dsimp only
    rw [hsteps]
    rcases resultOf (t.steps mount tool args patience) (fs, world) with ⟨e | ⟨-, -⟩, b⟩ <;> rfl
  rw [hrun]
  rcases hprepare : resultOf (t.prepare mount tool args) (fs, world) with
    ⟨e | ⟨hostArgs, outputs⟩, b⟩
  · rw [steps, resultOf_bind, hprepare]
    exact .unready hprepare
  by_cases hpatience : patience = 0
  · rw [steps, resultOf_bind, hprepare]
    subst hpatience
    exact .late hprepare rfl
  rw [resultOf_steps hprepare hpatience]
  rcases hlaunch : t.launch tool hostArgs patience (t.scratch.disk.get b.2) with ⟨e | ⟨f | -⟩, d⟩
  · exact .refused hprepare hpatience hlaunch
  · dsimp only
    rw [resultOf_collect]
    rcases hback : resultOf (t.fetchBack outputs) (b.1, t.scratch.disk.set b.2 d) with ⟨e | _, c⟩
    · exact .lost hprepare hpatience hlaunch hback
    · exact .exited hprepare hpatience hlaunch hback
  · exact .running hprepare hpatience hlaunch

variable {c : FileSystem × World} {tool : Tool} {args hostArgs outputs : List String}
  {patience : Nat} {run : Toolchain.Run}

namespace Course

/-- Every run leads from what is reachable to what is reachable. -/
theorem reachable (hs : t.scratch.disk.Lawful) (hapart : t.scratch.Apart mount)
    (h : t.Course mount tool args patience a (run, c)) (ha : Reachable a.1) : Reachable c.1 := by
  have hprepared := ((stocks_prepare hs hapart tool args) a).reachable ha
  cases h with
  | unready hunready =>
    rw [hunready] at hprepared
    exact hprepared
  | late hprepare | refused hprepare | running hprepare =>
    rw [show resultOf _ a = _ from hprepare] at hprepared
    exact hprepared
  | @lost _ outputs b _ f d e hprepare _ _ hback =>
    rw [show resultOf _ a = _ from hprepare] at hprepared
    have hreturned := returned_fetchBack (t := t) outputs (b.1, t.scratch.disk.set b.2 d) hprepared
    rw [hback] at hreturned
    exact hreturned.reachable
  | @exited _ outputs b c f d hprepare _ _ hback =>
    rw [show resultOf _ a = _ from hprepare] at hprepared
    have hreturned := returned_fetchBack (t := t) outputs (b.1, t.scratch.disk.set b.2 d) hprepared
    rw [show resultOf _ _ = _ from hback] at hreturned
    exact hreturned.reachable.print _ _

/-- Of the files that a program leaves a run takes its outputs at most, whatever comes of it. -/
theorem files (hs : t.scratch.disk.Lawful)
    (h : t.Course mount tool args patience a (run, c)) (hb : Reachable b.1)
    (hprepare : Yields (t.prepare mount tool args) a (hostArgs, outputs) b) (p : Path) :
    c.1.bytesAt p = b.1.bytesAt p ∨ ∃ text ∈ outputs, ∃ data, b.1.Names text p ∧
      (t.launch tool hostArgs patience (t.scratch.disk.get b.2)).2.read (t.scratch.hostPath p) =
        .ok data ∧ c.1.bytesAt p = some data := by
  have hback : ∀ {d : Disk} {c : FileSystem × World},
      t.scratch.Returned outputs (b.1, t.scratch.disk.set b.2 d) c →
      c.1.bytesAt p = b.1.bytesAt p ∨ ∃ text ∈ outputs, ∃ data, b.1.Names text p ∧
        d.read (t.scratch.hostPath p) = .ok data ∧ c.1.bytesAt p = some data := by
    intro d c hreturned
    refine (hreturned.files p).imp_right ?_
    rintro ⟨text, htext, q, data, hq, hparts, hread, hbytes⟩
    rw [hs.get_set, hostPath_congr _ hparts] at hread
    exact ⟨text, htext, data, ⟨q, hq, hparts⟩, hread, hbytes⟩
  cases h with
  | unready hunready => cases hunready.symm.trans hprepare
  | late hprepare' | refused hprepare' | running hprepare' =>
    cases hprepare.symm.trans hprepare'
    exact Or.inl rfl
  | @lost _ _ _ _ f d e hprepare' _ hlaunch hlost =>
    cases hprepare.symm.trans hprepare'
    have hreturned := returned_fetchBack (t := t) outputs (b.1, t.scratch.disk.set b.2 d) hb
    rw [hlost] at hreturned
    rw [hlaunch]
    exact hback hreturned
  | @exited _ _ _ c f d hprepare' _ hlaunch hexited =>
    cases hprepare.symm.trans hprepare'
    have hreturned := returned_fetchBack (t := t) outputs (b.1, t.scratch.disk.set b.2 d) hb
    rw [show resultOf _ _ = _ from hexited] at hreturned
    rw [hlaunch]
    exact hback (c := c) hreturned

/-- After a run that has ended its outputs are what the program has left. -/
theorem taken (hs : t.scratch.disk.Lawful) {status : Int} {left : Nat}
    (h : t.Course mount tool args patience a (.exited status left, c)) (hb : Reachable b.1)
    (hprepare : Yields (t.prepare mount tool args) a (hostArgs, outputs) b) {text : String}
    (htext : text ∈ outputs) {p : Path} (hnames : b.1.Names text p) (hp : p.parts ≠ [])
    {data : ByteArray} (hread : (t.launch tool hostArgs patience (t.scratch.disk.get b.2)).2.read
      (t.scratch.hostPath p) = .ok data) : c.1.bytesAt p = some data := by
  cases h with
  | @exited _ _ _ c f d hprepare' _ hlaunch hexited =>
    cases hprepare.symm.trans hprepare'
    rw [hlaunch] at hread
    refine bytesAt_of_yields_fetchBack (a := (b.1, t.scratch.disk.set b.2 d)) (b := c) hb hexited
      htext hnames hp ?_
    rw [hs.get_set]
    exact hread

end Course

end HostToolchain

end Workbench
