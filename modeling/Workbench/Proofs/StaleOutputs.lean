import Workbench.Proofs.HostLaunches

set_option autoImplicit false

/-! # Outputs that were left behind

The copies in the scratch directory outlive the run that made them, and what is done with the file
system does not reach them. So a run whose program writes nothing takes what an earlier run has left
under the name of its output, though the file was removed from the file system. Where no copy is
left and none is written, the file system has the file that it had. -/

namespace Workbench

open Host (Disk Job)

variable {World : Type}

namespace FileSystem

theorem world_settle (fs : FileSystem) (world : World) (result : Except Error FileSystem) :
    (settle fs world result).2.2 = world := by
  cases result <;> rfl

/-- An operation changes the world by a fetch at most. -/
theorem world_perform (mount : Option (Asset.Mount World)) (fs : FileSystem) (world : World)
    (op : Operation) : (fs.perform mount world op).2.2 = world ∨
      ∃ m key, mount = some m ∧ (fs.perform mount world op).2.2 = (m.fetch world key).2 := by
  have hfetched : ∀ {text : String}, op.fetched? = some text →
      (fs.perform mount world op).2.2 = world ∨
        ∃ m key, mount = some m ∧ (fs.perform mount world op).2.2 = (m.fetch world key).2 := by
    intro text hop
    rw [perform_eq_withFetched mount fs world hop]
    exact world_withFetched mount fs world text _
  cases op with
  | openPath | stat | readAll => exact hfetched rfl
  | close | truncateDescriptor | truncate | removeDir | unlink | setTimes | chdir =>
    exact Or.inl (world_settle fs world _)
  | write descriptor data position =>
    rw [perform]
    split <;> exact Or.inl rfl
  | _ => exact Or.inl rfl
namespace Scratch

variable {s : Scratch World} {mount : Option (Asset.Mount World)}

/-- Operations on the file system leave every copy as it is. -/
theorem copyOf_perform (hapart : s.Apart mount) (fs : FileSystem) (world : World) (op : Operation)
    (p : Path) :
    s.copyOf p (s.disk.get (fs.perform mount world op).2.2) = s.copyOf p (s.disk.get world) := by
  rcases world_perform mount fs world op with heq | ⟨m, key, hm, heq⟩ <;> rw [heq]
  have hfetched := hapart m hm world key
  have hplace : s.place (s.disk.get (m.fetch world key).2) = s.place (s.disk.get world) :=
    hfetched.placeOf s.root
  unfold copyOf
  rw [hplace]
  rcases hfetched.below _ (List.prefix_append _ p.parts) List.not_mem_nil with hsame | ⟨hnone, hdir⟩
  · rw [hsame]
  · rw [hnone, hdir]

end Scratch

end FileSystem

namespace HostToolchain

open FileSystem (Scratch OnlyNodes Reachable)
open FileSystem.Scratch

/-! ## Runs with anything between them -/

/-- What is done with a file system and with the tools of the host. -/
inductive Deed where
  | tick (clock : Time)
  | operate (op : FileSystem.Operation)
  | run (tool : Tool) (args : List String) (patience : Nat)

variable (t : HostToolchain World) (mount : Option (Asset.Mount World))

/-- Do one thing. -/
def act (a : FileSystem × World) : Deed → FileSystem × World
  | .tick clock => ({ a.1 with clock := clock }, a.2)
  | .operate op => (a.1.perform mount a.2 op).2
  | .run tool args patience => (t.toolchain.run mount tool args patience a.1 a.2).2

/-- Do one thing after the other. -/
def after (a : FileSystem × World) (deeds : List Deed) : FileSystem × World :=
  deeds.foldl (t.act mount) a

/-- A run gets as far as to launch its program, which finds a disk and leaves another one. -/
def Launches (tool : Tool) (args : List String) (patience : Nat) (a : FileSystem × World)
    (found left : Disk) : Prop :=
  ∃ hostArgs outputs b, Yields (t.prepare mount tool args) a (hostArgs, outputs) b ∧
    patience ≠ 0 ∧ found = t.scratch.disk.get b.2 ∧
    left = (t.launch tool hostArgs patience found).2

/-- What a run does to the files that its program does not write. -/
structure RunLaw (tool : Tool) (args : List String) (patience : Nat) (before : FileSystem × World)
    (run : Toolchain.Run) (later : FileSystem × World) : Prop where
  /-- If no program is launched every file keeps its bytes, and a new one was fetched. -/
  unlaunched : (∀ found left, ¬ t.Launches mount tool args patience before found left) → ∀ p data,
    (before.1.bytesAt p = some data → later.1.bytesAt p = some data) ∧
    (before.1.bytesAt p = none → later.1.bytesAt p = some data →
      ∃ m world, mount = some m ∧ m.covers p = true ∧ (m.fetch world p.toString).1 = .ok data)
  /-- If the program finds no copy of a file and makes none, the file is as it was, whatever comes
      of the run. -/
  untouched : ∀ found left, t.Launches mount tool args patience before found left → ∀ p,
    t.scratch.copyOf p found = none → t.scratch.copyOf p left = t.scratch.copyOf p found →
    later.1.bytesAt p = before.1.bytesAt p
  /-- What can be read under the name of an output in the end is taken, whether or not it was there
      when the program was launched. -/
  taken : ∀ found left, t.Launches mount tool args patience before found left → tool ≠ .format →
    ∀ text ∈ targets args, ∀ p, before.1.Names text p → p.parts ≠ [] →
    ∀ data, left.read (t.scratch.hostPath p) = .ok data →
    ∀ status rest, run = .exited status rest → later.1.bytesAt p = some data

/-- The copy of a file after something was done. -/
def copyAfter (a : FileSystem × World) (deeds : List Deed) (p : Path) : Option ByteArray :=
  t.scratch.copyOf p (t.scratch.disk.get (t.after mount a deeds).2)

/-- What becomes of outputs and of their copies when runs and other things are done one after the
    other. -/
structure OutputLaw (start : FileSystem × World) (deeds : List Deed) : Prop where
  runs : (t.scratch.disk.get (t.after mount start deeds).2).Grounded → ∀ tool args patience,
    t.RunLaw mount tool args patience (t.after mount start deeds)
      (t.toolchain.run mount tool args patience (t.after mount start deeds).1
        (t.after mount start deeds).2).1
      (t.after mount start (deeds ++ [.run tool args patience]))
  /-- No operation on the file system touches a copy. -/
  apart : ∀ op p,
    t.copyAfter mount start (deeds ++ [.operate op]) p = t.copyAfter mount start deeds p
  /-- So a copy was there from the start, or a run has left it. -/
  origin : ∀ p data, t.copyAfter mount start deeds p = some data →
    t.copyAfter mount start [] p = some data ∨
    ∃ before tool args patience later, deeds = before ++ .run tool args patience :: later ∧
      t.copyAfter mount start before p ≠ some data ∧
      t.copyAfter mount start (before ++ [.run tool args patience]) p = some data

variable {t mount} {a b c : FileSystem × World} {deeds : List Deed} {tool : Tool}
  {args : List String} {patience : Nat}

theorem after_concat (deed : Deed) :
    t.after mount a (deeds ++ [deed]) = t.act mount (t.after mount a deeds) deed := by
  rw [after, after, List.foldl_append]
  rfl

/-- Whatever is done, what is reachable stays reachable. -/
theorem reachable_after (hs : t.scratch.disk.Lawful) (hapart : t.scratch.Apart mount)
    (ha : Reachable a.1) (deeds : List Deed) : Reachable (t.after mount a deeds).1 := by
  induction deeds using List.reverseRecOn with
  | nil => exact ha
  | append_singleton deeds deed ih =>
    rw [after_concat]
    cases deed with
    | tick clock => exact ih.tick clock
    | operate op => exact ih.step mount _ op
    | run tool args patience => exact (t.course mount tool args patience _ _).reachable hs hapart ih

/-- Where a copy comes from is found by going back to the last thing that has changed it. -/
theorem origin_of_copy (hapart : t.scratch.Apart mount) {p : Path} {data : ByteArray}
    (h : t.copyAfter mount a deeds p = some data) : t.copyAfter mount a [] p = some data ∨
    ∃ before tool args patience later, deeds = before ++ .run tool args patience :: later ∧
      t.copyAfter mount a before p ≠ some data ∧
      t.copyAfter mount a (before ++ [.run tool args patience]) p = some data := by
  induction deeds using List.reverseRecOn with
  | nil => exact Or.inl h
  | append_singleton deeds deed ih =>
    by_cases hearlier : t.copyAfter mount a deeds p = some data
    · refine (ih hearlier).imp_right ?_
      rintro ⟨before, tool, args, patience, later, rfl, hbefore, hafter⟩
      exact ⟨before, tool, args, patience, later ++ [deed], by simp, hbefore, hafter⟩
    · -- the last deed has made it, so it was a run
      cases deed with
      | tick clock =>
        rw [copyAfter, after_concat] at h
        exact absurd h hearlier
      | operate op =>
        rw [copyAfter, after_concat, act, copyOf_perform hapart] at h
        exact absurd h hearlier
      | run tool args patience => exact Or.inr ⟨deeds, tool, args, patience, [], rfl, hearlier, h⟩

theorem runLaw (hs : t.scratch.disk.Lawful) (hapart : t.scratch.Apart mount)
    (ha : t.scratch.Ready a) {run : Toolchain.Run}
    (hcourse : t.Course mount tool args patience a (run, c)) :
    t.RunLaw mount tool args patience a run c := by
  refine ⟨fun hidle p data => ?_, fun found left hlaunch p hfound hleft => ?_,
    fun found left hlaunch htool text htext p hnames hp data hread status rest hrun => ?_⟩
  · have hstocked : ∃ touched copied, Stocked t.scratch mount touched copied a c := by
      have hprepared := (stocks_prepare hs hapart tool args a).stocked ha
      cases hcourse with
      | unready hunready => rwa [hunready] at hprepared
      | late hprepare => rwa [show resultOf _ a = _ from hprepare] at hprepared
      | refused hprepare hpatience | running hprepare hpatience | lost hprepare hpatience
      | exited hprepare hpatience =>
        exact absurd ⟨_, _, _, hprepare, hpatience, rfl, rfl⟩ (hidle _ _)
    obtain ⟨touched, copied, hstocked⟩ := hstocked
    refine ⟨fun hsome => ?_, fun hnone hsome => hstocked.fetched p data hnone hsome⟩
    rw [hstocked.kept p (by rw [hsome]; rfl), hsome]
  · obtain ⟨hostArgs, outputs, b, hprepare, -, rfl, rfl⟩ := hlaunch
    obtain ⟨-, copied, hstocked⟩ := stocked_prepare hs hapart ha hprepare
    -- what a run reads it copies out, so this file was not even read
    have hbeside : b.1.bytesAt p = a.1.bytesAt p := by
      refine hstocked.beside p fun hcopied => ?_
      obtain ⟨data, hcopy⟩ := hstocked.there p hcopied
      cases hfound.symm.trans (copyOf_of_read hcopy)
    rcases hcourse.files hs hstocked.ready.reachable hprepare p with
      hsame | ⟨text, htext, data, hnames, hread, hbytes⟩
    · rw [hsame, hbeside]
    · rw [copyOf_of_read hread, hfound] at hleft
      cases hleft
  · obtain ⟨hostArgs, outputs, b, hprepare, -, rfl, rfl⟩ := hlaunch
    obtain ⟨houtputs, copied, hstocked⟩ := stocked_prepare hs hapart ha hprepare
    subst hrun
    obtain ⟨q, hq, hparts⟩ := hnames
    refine hcourse.taken hs hstocked.ready.reachable hprepare (houtputs htool ▸ htext)
      ⟨q, (hstocked.nodes.resolve text).trans hq, hparts⟩ hp hread

/-- A run leaves the files alone of which its program finds no copy and makes none, and takes what
    it finds under the name of an output, though an earlier run has left it. -/
theorem outputLaw (hs : t.scratch.disk.Lawful) (hapart : t.scratch.Apart mount)
    (ha : Reachable a.1) (deeds : List Deed) : t.OutputLaw mount a deeds := by
  refine ⟨fun hgrounded tool args patience => ?_, fun op p => ?_, fun p data => ?_⟩
  · rw [after_concat]
    exact runLaw hs hapart ⟨reachable_after hs hapart ha deeds, hgrounded⟩
      (t.course mount tool args patience _ _)
  · rw [copyAfter, after_concat]
    exact copyOf_perform hapart _ _ op p
  · exact origin_of_copy hapart

/-! ## An output that outlives its file -/

/-- A program that writes its output when it is launched for the first time, and nothing after. -/
def onceOnly : Host.Launcher where
  launch request d :=
    if d.contains "ran" then (.ok (.finished ⟨.exited 0, .empty, .empty, 1⟩), d)
    else
      let written := resultOf (do
        Job.write (request.args.getLastD "") "made".toUTF8
        Job.write "ran" .empty) d
      (.ok (.finished ⟨.exited 0, .empty, .empty, 1⟩), written.2)

/-- Tools that are that program. -/
def forgetful : HostToolchain Disk := ⟨onceOnly, "go", ⟨"/scratch", .whole⟩⟩

/-- The tool is run, and what it made is removed. -/
def madeAndRemoved : List Deed :=
  [.operate (.makeDir "/tmp" true), .run .compile ["-o", "/tmp/main.a"] 9,
    .operate (.unlink "/tmp/main.a")]

/-- The law holds of the forgetful tools, also of the run that comes next. -/
theorem outputLaw_forgetful :
    (forgetful.after none (.empty ⟨0, 0⟩, .empty) madeAndRemoved).2.Grounded ∧
    forgetful.OutputLaw none (.empty ⟨0, 0⟩, .empty) madeAndRemoved :=
  ⟨Host.Disk.grounded_of_isDir (by decide +kernel),
    outputLaw ⟨fun _ _ => rfl⟩ (apart_none _) (.new ⟨0, 0⟩) madeAndRemoved⟩

/-- The second run has no file at its output, and its program changes nothing at all, yet the run
    makes one. -/
theorem forgetful_leftover : ∃ found p,
    forgetful.Launches none .compile ["-o", "/tmp/main.a"] 9
      (forgetful.after none (.empty ⟨0, 0⟩, .empty) madeAndRemoved) found found ∧
    (forgetful.after none (.empty ⟨0, 0⟩, .empty) madeAndRemoved).1.resolve "/tmp/main.a" = .ok p ∧
    (forgetful.after none (.empty ⟨0, 0⟩, .empty) madeAndRemoved).1.bytesAt p = none ∧
    (forgetful.after none (.empty ⟨0, 0⟩, .empty)
      (madeAndRemoved ++ [.run .compile ["-o", "/tmp/main.a"] 9])).1.bytesAt p =
        some "made".toUTF8 := by
  let before := forgetful.after none (.empty ⟨0, 0⟩, .empty) madeAndRemoved
  have hmarked :
      (resultOf (forgetful.prepare none .compile ["-o", "/tmp/main.a"]) before).1.isOk ∧
        (resultOf (forgetful.prepare none .compile ["-o", "/tmp/main.a"]) before).2.2.contains
          "ran" := by
    decide +kernel
  rcases hprepare : resultOf (forgetful.prepare none .compile ["-o", "/tmp/main.a"]) before with
    ⟨e | ⟨hostArgs, outputs⟩, b⟩ <;> rw [hprepare] at hmarked
  · cases hmarked.1
  have hidle : (forgetful.launch .compile hostArgs 9 b.2).2 = b.2 := by
    unfold launch
    show (onceOnly.launch _ b.2).2 = b.2
    rw [onceOnly]
    dsimp only
    rw [if_pos hmarked.2]
  refine ⟨b.2, ⟨["tmp", "main.a"], false, by decide, nofun⟩,
    ⟨hostArgs, outputs, b, hprepare, by decide, rfl, hidle.symm⟩, ?_, ?_, ?_⟩
  · decide +kernel
  · decide +kernel
  · decide +kernel

end HostToolchain

end Workbench
