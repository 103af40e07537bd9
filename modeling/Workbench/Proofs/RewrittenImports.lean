import Workbench.Proofs.Errands
import Workbench.Proofs.HostPaths

set_option autoImplicit false

/-! # Import configurations that are rewritten

What was read from a configuration, whatever its text is like, can be written and read again. Other
archives can be put in as well, and this keeps every import, their order and what each one is bound
to, if and only if all of the archives that are put in stay as they are on a line.

The tools of the host are given such a configuration, in which the copies stand for the archives. A
copy has the name of the path that an archive leads to, and that is not always tidy, though the text
that led there was: the working directory may have a line end in its name, and a path that was
spelled with a slash at its end loses the slash, after which a blank may come last. -/

namespace Workbench

open Host (Disk)

namespace Text

/-- Before a character that is no blank, what begins well and holds no line end does no harm. -/
theorem tidy_append_cons_iff {front back : List Char} {c : Char} (hline : '\n' ∉ front)
    (hhead : ∀ d, front.head? = some d → isBlank d = false) (hc : isBlank c = false) :
    Tidy (front ++ c :: back) ↔ Tidy (c :: back) := by
  have hlast : (front ++ c :: back).getLast? = (c :: back).getLast? := by
    rw [List.getLast?_append, List.getLast?_cons, Option.some_or]
  constructor
  · intro h
    refine ⟨List.cons_ne_nil c back, fun hmem => h.oneLine ?_, ?_, ?_⟩
    · exact List.mem_append_right front hmem
    · rintro _ ⟨⟩
      exact hc
    · rw [← hlast]
      exact h.last
  · intro h
    refine ⟨by simp, fun hmem => ?_, fun d hd => ?_, ?_⟩
    · exact (List.mem_append.1 hmem).elim hline h.oneLine
    · cases front with
      | nil => exact h.head d hd
      | cons first rest => exact hhead d hd
    · rw [hlast]
      exact h.last

end Text

namespace ImportConfig

/-! ## Reading again -/

/-- What was read is read again after it was written. -/
theorem parse_toText_parse (text : String) : parse (parse text).toText = parse text :=
  parse_toText fun _ => legible_of_parse

/-- Archives that are put in are read again as they are if and only if all of them are tidy. -/
theorem parse_mapArchives_iff (text : String) (f : String → String) :
    (parse ((parse text).mapArchives f).toText).entries =
        (parse text).entries.map (fun entry => (entry.1, f entry.2)) ↔
      ∀ entry ∈ (parse text).entries, Text.Tidy (f entry.2).toList := by
  constructor
  · intro hread entry hentry
    -- whatever is read is tidy, and the archive that was put in is among it
    have hmem : (entry.1, f entry.2) ∈ (parse ((parse text).mapArchives f).toText).entries := by
      rw [hread]
      exact List.mem_map_of_mem hentry
    exact (legible_of_parse hmem).archive
  · intro htidy
    rw [parse_mapArchives htidy]
    rfl

end ImportConfig

/-! ## Paths of copies -/

namespace FileSystem.Scratch

variable {World : Type}

/-- The path of a copy ends in the written form of its path, unless that is the root. -/
theorem exists_hostPath {s : Scratch World} (hroot : s.root ≠ "") {p : Path} (hp : p.parts ≠ []) :
    ∃ front, (s.hostPath p).toList = front ++ p.toString.toList ∧ front <+: s.root.toList := by
  obtain ⟨front, hjoin, hfront⟩ :=
    Host.Location.exists_join hroot (Path.isRooted_intercalate hp p.proper)
  refine ⟨front, ?_, ?_⟩
  · rw [hostPath, if_neg (mt (Path.isRoot_iff p).1 hp), hjoin, Path.toString, String.toList_append]
    rfl
  · rcases hfront with hfront | hfront <;> rw [hfront]
    exact List.prefix_append front ['/']

/-- In a directory with a tidy name, the path of a copy is tidy if and only if its path is. -/
theorem tidy_hostPath_iff {s : Scratch World} (hroot : Text.Tidy s.root.toList) (p : Path) :
    Text.Tidy (s.hostPath p).toList ↔ Text.Tidy p.toString.toList := by
  have hne : s.root ≠ "" := fun hempty => hroot.ne_nil (String.toList_eq_nil_iff.2 hempty)
  by_cases hp : p.parts = []
  · have htext : p.toString.toList = ['/'] := by rw [Path.toList_toString, if_pos hp]
    have hslash : Text.Tidy ['/'] := by decide
    rw [hostPath, if_pos ((Path.isRoot_iff p).2 hp), htext]
    exact iff_of_true hroot hslash
  · obtain ⟨front, htext, rest, hfront⟩ := exists_hostPath hne hp
    obtain ⟨back, hback⟩ : ∃ back, p.toString.toList = '/' :: back := by
      rw [Path.toString, String.toList_append]
      exact ⟨_, rfl⟩
    rw [htext, hback]
    refine Text.tidy_append_cons_iff (fun hmem => hroot.oneLine ?_) (fun c hc => ?_) (by decide)
    · rw [← hfront]
      exact List.mem_append_left rest hmem
    · refine hroot.head c ?_
      rw [← hfront, List.head?_append, hc, Option.some_or]

end FileSystem.Scratch

/-! ## The copy of a configuration -/

namespace HostToolchain

open FileSystem.Scratch ImportConfig

variable {World : Type} {t : HostToolchain World} {mount : Option (Asset.Mount World)}
  {a b : FileSystem × World} {text path : String}

/-- A configuration with the text `content` was copied out, and its copy has the text `copy`. -/
structure Recast (t : HostToolchain World) (text path : String) (a b : FileSystem × World)
    (content copy : String) : Prop where
  place : path = t.mirror a.1 text
  read : (b.1.look text).map Text.ofUtf8Lossy = some content
  written : ((t.scratch.disk.get b.2).look path).map Text.ofUtf8Lossy = some copy
  wording : copy = ((parse content).mapArchives (t.mirror a.1)).toText
  /-- The configuration is as it was, unless it was fetched for this. -/
  kept : ∀ bytes, a.1.look text = some bytes → b.1.look text = some bytes
  /-- Every archive that is listed is a file, and its bytes stand where it was copied to, unless
      that is the place of the configuration itself. -/
  faithful : ∀ entry ∈ (parse content).entries, ∃ p, a.1.resolve entry.2 = .ok p ∧
    t.mirror a.1 entry.2 = t.scratch.hostPath p ∧
    (¬ a.1.Names text p → ∃ bytes, b.1.look entry.2 = some bytes ∧
      (t.scratch.disk.get b.2).look (t.mirror a.1 entry.2) = some bytes)

theorem recast_of_yields (hs : t.scratch.disk.Lawful) (hapart : t.scratch.Apart mount)
    (hready : t.scratch.Ready a) (h : Yields (t.exportConfig mount text) a path b) :
    ∃ content copy, t.Recast text path a b content copy := by
  obtain ⟨p, bytes, texts, hp, rfl, hexported⟩ := of_yields_exportConfig hs hapart hready h
  have hresolve := hexported.stocked.nodes.resolve
  have hlook : b.1.look text = some bytes := by
    rw [FileSystem.look_of_resolve ((hresolve text).trans hp), hexported.content]
  refine ⟨Text.ofUtf8Lossy bytes, _, (mirror_of_ok hp).symm, ?_, ?_, rfl, ?_, ?_⟩
  · rw [hlook, Option.map_some]
  · rw [Disk.look_eq_some_iff.2 hexported.copy, Option.map_some, Text.ofUtf8Lossy_toUTF8]
  · intro earlier hearlier
    rw [FileSystem.look_of_resolve hp] at hearlier
    have hkept := hexported.stocked.kept p (Option.isSome_of_eq_some hearlier)
    rw [hlook, ← hexported.content, hkept, hearlier]
  · intro entry hentry
    obtain ⟨q, hq, -, hfaithful⟩ := hexported.faithful entry hentry
    refine ⟨q, hq, mirror_of_ok hq, fun hother => ?_⟩
    obtain ⟨data, hdata, hread⟩ := hfaithful fun hparts => hother ⟨p, hp, hparts.symm⟩
    refine ⟨data, ?_, ?_⟩
    · rw [FileSystem.look_of_resolve ((hresolve entry.2).trans hq), hdata]
    · rw [mirror_of_ok hq, Disk.look_eq_some_iff, hread]

namespace Recast

variable {content copy : String}

/-- The copy lists the same imports in the same order, each with the copy of its archive, if and
    only if the paths of these copies are tidy. -/
theorem lossless_iff (h : t.Recast text path a b content copy) :
    (parse copy).entries =
        (parse content).entries.map (fun entry => (entry.1, t.mirror a.1 entry.2)) ↔
      ∀ entry ∈ (parse content).entries, Text.Tidy (t.mirror a.1 entry.2).toList := by
  rw [h.wording]
  exact parse_mapArchives_iff content (t.mirror a.1)

/-- In a scratch directory with a tidy name, the paths of the copies are tidy if and only if the
    archives lead to paths that are written in a tidy way. -/
theorem tidy_iff (h : t.Recast text path a b content copy)
    (hroot : Text.Tidy t.scratch.root.toList) :
    (∀ entry ∈ (parse content).entries, Text.Tidy (t.mirror a.1 entry.2).toList) ↔
      ∀ entry ∈ (parse content).entries, ∀ p, a.1.resolve entry.2 = .ok p →
        Text.Tidy p.toString.toList := by
  refine forall₂_congr fun entry hentry => ?_
  obtain ⟨p, hp, hmirror, -⟩ := h.faithful entry hentry
  rw [hmirror, tidy_hostPath_iff hroot]
  refine ⟨fun htidy q hq => ?_, fun htidy => htidy p hp⟩
  cases hp.symm.trans hq
  exact htidy

end Recast

/-- Whatever the text of a configuration is like, what it lists is the same after it was written and
    read again, with the same archives or with other ones that are tidy; and so it is for the
    configuration that a tool of the host gets. -/
theorem rewriting_lossless (hs : t.scratch.disk.Lawful) (hapart : t.scratch.Apart mount)
    (hready : t.scratch.Ready a) :
    (∀ text, parse (parse text).toText = parse text) ∧
    (∀ text f, (parse ((parse text).mapArchives f).toText).entries =
        (parse text).entries.map (fun entry => (entry.1, f entry.2)) ↔
      ∀ entry ∈ (parse text).entries, Text.Tidy (f entry.2).toList) ∧
    ∀ text path b, Yields (t.exportConfig mount text) a path b →
      ∃ content copy, t.Recast text path a b content copy ∧
        ((parse copy).entries =
            (parse content).entries.map (fun entry => (entry.1, t.mirror a.1 entry.2)) ↔
          ∀ entry ∈ (parse content).entries, Text.Tidy (t.mirror a.1 entry.2).toList) ∧
        (Text.Tidy t.scratch.root.toList →
          ((∀ entry ∈ (parse content).entries, Text.Tidy (t.mirror a.1 entry.2).toList) ↔
            ∀ entry ∈ (parse content).entries, ∀ p, a.1.resolve entry.2 = .ok p →
              Text.Tidy p.toString.toList)) := by
  refine ⟨parse_toText_parse, parse_mapArchives_iff, fun text path b h => ?_⟩
  obtain ⟨content, copy, hrecast⟩ := recast_of_yields hs hapart hready h
  exact ⟨content, copy, hrecast, hrecast.lossless_iff, hrecast.tidy_iff⟩

/-! ## Configurations in files -/

/-- A file system that holds some files, and an empty disk. -/
def holding (files : List (String × String)) : FileSystem × Disk :=
  ((FileSystem.performAll (none : Option (Asset.Mount Disk)) (.empty ⟨0, 0⟩) Disk.empty
    (files.map fun file => .writeFile file.1 file.2.toUTF8)).2.1, .empty)

theorem ready_holding (files : List (String × String)) :
    bundling.scratch.Ready (holding files) :=
  ⟨.performAll _ _ _ (.new ⟨0, 0⟩), rfl⟩

/-- A configuration with a comment, another directive, blanks and both kinds of line ends. -/
def annotated : String :=
  "# import config\r\npackagefile fmt = /fmt.a\r\nimportmap x=y\n\u00A0packagefile os=/lib//os.a"

/-- What a step has answered it has yielded. -/
theorem yields_of_toOption {step : Step World String} {state : FileSystem × World} {answer : String}
    (h : (resultOf step state).1.toOption = some answer) :
    Yields step state answer (resultOf step state).2 := by
  rw [Yields, ← toOption_eq_some_iff.1 h]

/-- Both imports are listed again, with their copies. -/
theorem rewriting_lossless_annotated :
    let a := holding [("/fmt.a", "F"), ("/lib/os.a", "O"), ("/importcfg", annotated)]
    ∃ b copy, Yields (bundling.exportConfig none "/importcfg") a "/scratch/importcfg" b ∧
      bundling.Recast "/importcfg" "/scratch/importcfg" a b annotated copy ∧
      (parse copy).entries = [("fmt", "/scratch/fmt.a"), ("os", "/scratch/lib/os.a")] := by
  intro a
  have hanswer : (resultOf (bundling.exportConfig none "/importcfg") a).1.toOption =
      some "/scratch/importcfg" := by
    decide +kernel
  have hread : ((resultOf (bundling.exportConfig none "/importcfg") a).2.1.look "/importcfg").map
      Text.ofUtf8Lossy = some annotated := by
    decide +kernel
  have hentries : (parse annotated).entries = [("fmt", "/fmt.a"), ("os", "/lib//os.a")] := by
    decide +kernel
  have hcopies : [("fmt", "/fmt.a"), ("os", "/lib//os.a")].map (fun entry =>
      (entry.1, bundling.mirror a.1 entry.2)) =
        [("fmt", "/scratch/fmt.a"), ("os", "/scratch/lib/os.a")] := by
    decide +kernel
  have htidy : ∀ entry ∈ [("fmt", "/fmt.a"), ("os", "/lib//os.a")],
      Text.Tidy (bundling.mirror a.1 entry.2).toList := by
    decide +kernel
  obtain ⟨-, -, hexport⟩ := rewriting_lossless (t := bundling) (a := a) ⟨fun _ _ => rfl⟩
    (apart_none bundling.scratch) (ready_holding _)
  obtain ⟨content, copy, hrecast, hlossless, -⟩ := hexport _ _ _ (yields_of_toOption hanswer)
  obtain rfl : content = annotated := Option.some.inj (hrecast.read.symm.trans hread)
  rw [hentries, hcopies] at hlossless
  exact ⟨_, copy, yields_of_toOption hanswer, hrecast, hlossless.2 htidy⟩

/-- A configuration that names one archive with a slash after the blank at the end of its name, and
    another archive whose name is the same without the blank. -/
def padded : FileSystem × Disk :=
  holding [("/a ", "P"), ("/a", "Q"), ("/importcfg", "packagefile p=/a /\npackagefile q=/a\n")]

/-- Both archives are copied out, but where the copy of the configuration is read the blank is lost,
    and the first import is bound to the copy of the second archive. -/
theorem exists_import_rebound :
    let content := "packagefile p=/a /\npackagefile q=/a\n"
    let copy := "packagefile p=/scratch/a \npackagefile q=/scratch/a\n"
    (∃ b, bundling.scratch.Ready padded ∧
      Yields (bundling.exportConfig none "/importcfg") padded "/scratch/importcfg" b ∧
      b.1.look "/importcfg" = some content.toUTF8 ∧
      b.2.look "/scratch/importcfg" = some copy.toUTF8 ∧
      b.2.look "/scratch/a " = some "P".toUTF8 ∧ b.2.look "/scratch/a" = some "Q".toUTF8) ∧
    (parse content).entries.map (fun entry => (entry.1, bundling.mirror padded.1 entry.2)) =
      [("p", "/scratch/a "), ("q", "/scratch/a")] ∧
    (parse copy).entries = [("p", "/scratch/a"), ("q", "/scratch/a")] := by
  intro content copy
  have hanswer : (resultOf (bundling.exportConfig none "/importcfg") padded).1.toOption =
      some "/scratch/importcfg" := by
    decide +kernel
  refine ⟨⟨_, ready_holding _, yields_of_toOption hanswer, ?_, ?_, ?_, ?_⟩, ?_, ?_⟩
  all_goals decide +kernel

end HostToolchain

end Workbench
