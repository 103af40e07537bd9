import Workbench.Proofs.Footprint
import Workbench.Session.Build

set_option autoImplicit false

/-! # What a session leaves alone

By itself a session writes three files: the source and two import configurations. What is looked for
under other keys is as the tools have left it. The archive and the module stand beside the
configurations in the work directory; the source is where the settings say. -/

namespace Workbench

/-! ## The paths of a session -/

namespace Config

/-- The components of the work directory. -/
def workParts (c : Config) : List String :=
  ((Text.splitOn '/' (Text.dropEndWhile (· == '/') c.workDir.toList)).map String.ofList).foldl
    Path.enter []

/-- The paths of the files that a session writes itself. -/
def ownPaths (c : Config) : List String := [c.sourcePath, c.compileConfigPath, c.linkConfigPath]

theorem toList_workPath (c : Config) (name : String) : (c.workPath name).toList =
    Text.dropEndWhile (· == '/') c.workDir.toList ++ '/' :: name.toList := by
  rw [workPath, String.toList_append, String.toList_append, String.toList_ofList,
    List.append_assoc]
  rfl

theorem head?_workPath {c : Config} (h : Path.isAbsolute c.workDir = true) (name : String) :
    (c.workPath name).toList.head? = some '/' := by
  have hpre : Text.dropEndWhile (· == '/') c.workDir.toList <+: c.workDir.toList := by
    rw [← List.reverse_suffix, Text.dropEndWhile, List.reverse_reverse]
    exact List.dropWhile_suffix _
  rw [toList_workPath]
  cases hdir : Text.dropEndWhile (· == '/') c.workDir.toList with
  | nil => rfl
  | cons first rest =>
    rw [hdir] at hpre
    obtain ⟨more, hmore⟩ := hpre
    rw [Path.isAbsolute, ← hmore] at h
    exact of_decide_eq_true h

theorem isAbsolute_workPath {c : Config} (h : Path.isAbsolute c.workDir = true) (name : String) :
    Path.isAbsolute (c.workPath name) = true :=
  decide_eq_true (head?_workPath h name)

/-- The pieces of a path in the work directory are those of the directory and the name. -/
theorem pieces_workPath (c : Config) {name : String} (hname : Path.isComponent name = true) :
    Path.pieces (c.workPath name) =
      ((Text.splitOn '/' (Text.dropEndWhile (· == '/') c.workDir.toList)).map String.ofList) ++
        [name] := by
  have hlast : Text.splitOn '/' name.toList = [name.toList] := by
    have hlast := Text.splitOn_append_of_notMem (Path.slash_notMem_of_isComponent hname)
      (Text.splitOn_nil '/')
    rwa [List.append_nil] at hlast
  rw [Path.pieces, toList_workPath, Text.splitOn_append_sep, hlast, List.map_append,
    List.map_singleton, String.ofList_toList]

/-- A path in the work directory is not spelled as a directory. -/
theorem trailing_of_scan_workPath {c : Config} {name : String}
    (hname : Path.isComponent name = true) {start p : Path}
    (h : Path.scan start (c.workPath name) = .ok p) : p.trailing = false := by
  obtain ⟨hparts, htrailing⟩ := Path.scan_ok h
  rw [pieces_workPath c hname, List.foldl_concat, Path.enter_of_isComponent _ hname] at hparts
  have hspells : Path.spellsDirectory (Path.pieces (c.workPath name)) = false := by
    rw [pieces_workPath c hname, Path.spellsDirectory, List.getLast?_concat]
    simp only [Path.isComponent, Bool.and_eq_true, decide_eq_true_eq] at hname
    simp [hname]
  rw [htrailing, hspells, hparts, Bool.false_or]
  exact List.isEmpty_eq_false_iff.2 (List.append_ne_nil_of_right_ne_nil _ (List.cons_ne_nil _ _))

/-- A name in an absolute work directory is below its components. -/
theorem parts_of_parse_workPath {c : Config} (h : Path.isAbsolute c.workDir = true) {name : String}
    (hname : Path.isComponent name = true) {p : Path} (hp : Path.parse (c.workPath name) = .ok p) :
    p.parts = c.workParts ++ [name] ∧ p.trailing = false := by
  rw [Path.parse_eq_scan (head?_workPath h name)] at hp
  refine ⟨?_, trailing_of_scan_workPath hname hp⟩
  rw [(Path.scan_ok hp).1, pieces_workPath c hname, List.foldl_concat,
    Path.enter_of_isComponent _ hname]
  rfl

end Config

namespace FileSystem

/-! ## What the working directory does not change -/

/-- An absolute text is the same path from everywhere. -/
theorem resolve_eq_ok_iff (fs : FileSystem) {text : String} (h : Path.isAbsolute text = true)
    (p : Path) : fs.resolve text = .ok p ↔ Path.parse text = .ok p := by
  have hparse : fs.cwd.resolve text = Path.parse text := by
    rw [Path.resolve, Path.parse, if_pos h, if_pos h]
  rw [resolve, hparse]
  cases Path.parse text with
  | error e => exact iff_of_false (by simp [Except.mapError]) (by simp)
  | ok q => exact ⟨fun heq => congrArg Except.ok (Except.ok.inj heq), fun heq => by rw [heq]; rfl⟩

theorem contains_eq {fs : FileSystem} {text : String} (h : Path.isAbsolute text = true) {p : Path}
    (hp : Path.parse text = .ok p) : fs.contains text = (fs.find? p).isSome := by
  rw [contains, (resolve_eq_ok_iff fs h p).2 hp]

end FileSystem

namespace Session

variable {World : Type}

/-! ## Beside the files of a session -/

/-- What a session does by itself neither brings about that something holds nor ends it. -/
structure Untouched (w : Workshop World) (holds : FileSystem → Bool) : Prop where
  clear : ∀ fs, holds fs.clearOutput = holds fs
  write : ∀ fs path data, path ∈ w.config.ownPaths → holds (fs.writeFile path data).2 = holds fs
  read : ∀ fs world, holds (fs.readAll w.mount world w.config.sourcePath).2.1 = holds fs

/-- What depends only on keys beside the session's own files is untouched. -/
theorem Untouched.of_keys {w : Workshop World} (habs : Path.isAbsolute w.config.workDir = true)
    {holds : FileSystem → Bool} (keys : List String)
    (hholds : ∀ fs fs' : FileSystem, (∀ key ∈ keys, fs'.nodes.get? key = fs.nodes.get? key) →
      holds fs' = holds fs)
    (hbeside : ∀ path ∈ w.config.ownPaths, ∀ p, Path.parse path = .ok p → ∀ key ∈ keys,
      FileSystem.Beside p key) : Untouched w holds := by
  have hresolve : ∀ path ∈ w.config.ownPaths, ∀ (fs : FileSystem) p, fs.resolve path = .ok p →
      ∀ key ∈ keys, FileSystem.Beside p key := by
    intro path hpath fs p hp
    refine hbeside path hpath p ((FileSystem.resolve_eq_ok_iff fs ?_ p).1 hp)
    simp only [Config.ownPaths, List.mem_cons, List.not_mem_nil, or_false] at hpath
    rcases hpath with rfl | rfl | rfl <;> exact Config.isAbsolute_workPath habs _
  refine ⟨fun fs => hholds _ _ fun _ _ => rfl, fun fs path data hpath => ?_, fun fs world => ?_⟩
  · exact hholds _ _ fun key hkey =>
      FileSystem.get?_writeFile (fun p hp => hresolve path hpath fs p hp key hkey) data
  · exact hholds _ _ fun key hkey =>
      FileSystem.get?_readAll (fun p hp => hresolve _ List.mem_cons_self fs p hp key hkey) _ _

section Outputs

variable {w : Workshop World}

/-- What is built in the work directory is not in the way of the import configurations. -/
theorem not_prefix_of_config (habs : Path.isAbsolute w.config.workDir = true)
    {name : String} (hname : name ≠ "importcfg" ∧ name ≠ "importcfg.link") {out : Path}
    (hout : out.parts = w.config.workParts ++ [name]) {path : String}
    (hpath : path = w.config.compileConfigPath ∨ path = w.config.linkConfigPath) {p : Path}
    (hp : Path.parse path = .ok p) : ¬ out.parts <+: p.parts := by
  intro hpre
  have hparts : p.parts = w.config.workParts ++ ["importcfg"] ∨
      p.parts = w.config.workParts ++ ["importcfg.link"] := by
    rcases hpath with rfl | rfl
    · exact Or.inl (Config.parts_of_parse_workPath habs (by decide) hp).1
    · exact Or.inr (Config.parts_of_parse_workPath habs (by decide) hp).1
  rcases hparts with hparts | hparts
  · rw [hout, hparts, List.prefix_append_right_inj] at hpre
    exact hname.1 (List.head_eq_of_cons_eq (hpre.eq_of_length rfl))
  · rw [hout, hparts, List.prefix_append_right_inj] at hpre
    exact hname.2 (List.head_eq_of_cons_eq (hpre.eq_of_length rfl))

/-- A file that is built is untouched unless it is the source. -/
theorem Untouched.isFile (habs : Path.isAbsolute w.config.workDir = true) {m : Path}
    (hm : Path.parse w.config.modulePath = .ok m)
    (hsource : ∀ s, Path.parse w.config.sourcePath = .ok s → s.parts ≠ m.parts) :
    Untouched w (·.isFile m) := by
  obtain ⟨hparts, -⟩ := Config.parts_of_parse_workPath habs (by decide) hm
  have hroot : m.parts ≠ [] := by
    rw [hparts]
    exact List.append_ne_nil_of_right_ne_nil _ (List.cons_ne_nil _ _)
  refine .of_keys habs [m.fileKey] (fun fs fs' hkeys => ?_) fun path hpath p hp key hkey => ?_
  · rw [FileSystem.isFile, FileSystem.isFile, hkeys m.fileKey List.mem_cons_self]
  · obtain rfl := List.mem_singleton.1 hkey
    refine ⟨fun heq => ?_, fun d _ _ => Path.fileKey_ne_dirKey hroot d⟩
    have hsame := Path.fileKey_inj.1 heq
    rcases List.mem_cons.1 hpath with rfl | hpath
    · exact hsource p hp hsame.symm
    · refine not_prefix_of_config habs (by decide) hparts ?_ hp (hsame ▸ List.prefix_rfl)
      simpa using hpath

/-- What is at the place of the archive is untouched unless the source is there or below. -/
theorem Untouched.contains (habs : Path.isAbsolute w.config.workDir = true) {a : Path}
    (ha : Path.parse w.config.mainArchivePath = .ok a)
    (hsource : ∀ s, Path.parse w.config.sourcePath = .ok s → ¬ a.parts <+: s.parts) :
    Untouched w (·.contains w.config.mainArchivePath) := by
  obtain ⟨hparts, htrailing⟩ := Config.parts_of_parse_workPath habs (by decide) ha
  have hroot : a.parts ≠ [] := by
    rw [hparts]
    exact List.append_ne_nil_of_right_ne_nil _ (List.cons_ne_nil _ _)
  refine .of_keys habs [a.fileKey, a.dirKey] (fun fs fs' hkeys => ?_)
    fun path hpath p hp key hkey => ?_
  · have habsolute : Path.isAbsolute w.config.mainArchivePath = true :=
      Config.isAbsolute_workPath habs _
    rw [FileSystem.contains_eq habsolute ha, FileSystem.contains_eq habsolute ha,
      FileSystem.find?, FileSystem.find?, htrailing, hkeys a.fileKey (by simp),
      hkeys a.dirKey (by simp)]
  have hpre : ¬ a.parts <+: p.parts := by
    rcases List.mem_cons.1 hpath with rfl | hpath
    · exact hsource p hp
    · exact not_prefix_of_config habs (by decide) hparts (by simpa using hpath) hp
  rcases List.mem_cons.1 hkey with rfl | hkey
  · exact ⟨fun heq => hpre (Path.fileKey_inj.1 heq ▸ List.prefix_rfl),
      fun d _ _ => Path.fileKey_ne_dirKey hroot d⟩
  · obtain rfl := List.mem_singleton.1 hkey
    exact ⟨fun heq => hroot (Path.fileKey_eq_dirKey_iff.1 heq.symm).2,
      fun d hd _ heq => hpre (Path.dirKey_inj.1 heq ▸ hd)⟩

end Outputs

end Session

end Workbench
