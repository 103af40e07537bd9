import Workbench.Proofs.TwinSessions
import Workbench.Proofs.Untouched
import Workbench.Session.Script

set_option autoImplicit false

/-! # What earlier sessions leave behind

A session begins by taking away the archive and the module that an earlier one may have built, and
by dropping what is in the output buffers. Two file systems that differ in nothing else, apart from
times, are the same from then on: their listings agree again in their order, since a name that is
struck leaves the others where they are. So a session is told the same whichever of the two it
begins with.

A directory in the place of the archive ends the session before it looks for the module. It is told
the same then, too, but a module that was there stays there. -/

namespace Workbench

variable {World : Type}

/-! ## Names in the work directory -/

theorem Path.nul_notMem_of_scan {start p : Path} {text : String} (h : scan start text = .ok p) :
    '\x00' ∉ text.toList := by
  unfold scan at h
  split at h
  · cases h
  · next hnul => simpa using hnul

namespace Config

/-- Slashes at the end of a text lead nowhere. -/
theorem foldl_enter_dropEnd (start : List String) (chars : List Char) :
    ((Text.splitOn '/' (Text.dropEndWhile (· == '/') chars)).map String.ofList).foldl
        Path.enter start =
      ((Text.splitOn '/' chars).map String.ofList).foldl Path.enter start := by
  induction chars using List.reverseRecOn with
  | nil => rfl
  | append_singleton chars c ih =>
    by_cases hc : c = '/'
    · subst hc
      have hdrop : Text.dropEndWhile (· == '/') (chars ++ ['/']) =
          Text.dropEndWhile (· == '/') chars := by
        simp [Text.dropEndWhile]
      rw [hdrop, ih, Text.splitOn_append_sep, Text.splitOn_nil, List.map_append, List.foldl_append]
      rfl
    · have hdrop : Text.dropEndWhile (· == '/') (chars ++ [c]) = chars ++ [c] := by
        simp [Text.dropEndWhile, hc]
      rw [hdrop]

/-- A name in the work directory is absolute where the work directory is. -/
theorem isAbsolute_workPath_eq {c : Config} (h : c.workDir ≠ "") (name : String) :
    Path.isAbsolute (c.workPath name) = Path.isAbsolute c.workDir := by
  cases habs : Path.isAbsolute c.workDir with
  | true => exact isAbsolute_workPath habs name
  | false =>
    rw [Path.isAbsolute, decide_eq_false_iff_not] at habs ⊢
    cases hdir : c.workDir.toList with
    | nil => exact absurd (String.toList_eq_nil_iff.1 hdir) h
    | cons first rest =>
      rw [hdir, List.head?_cons, Option.some.injEq] at habs
      -- a first character that is no slash is not dropped with the slashes at the end
      have hkept : (Text.dropEndWhile (· == '/') (first :: rest)).head? = some first := by
        rw [Text.dropEndWhile, List.reverse_cons, List.dropWhile_append]
        split <;> simp [habs]
      rw [toList_workPath, hdir, List.head?_append, hkept]
      simpa using habs

/-- Where the work directory is a path, a name in it is a path below it. -/
theorem resolve_workPath {c : Config} {fs : FileSystem} {dir : Path}
    (h : fs.resolve c.workDir = .ok dir) {name : String} (hname : Path.isComponent name = true) :
    ∃ p, fs.resolve (c.workPath name) = .ok p ∧ p.parts = dir.parts ++ [name] ∧
      p.trailing = false := by
  have hne : c.workDir ≠ "" := by
    intro hempty
    rw [FileSystem.resolve, hempty, Path.resolve, if_pos rfl] at h
    cases h
  have hscan : Path.scan (if Path.isAbsolute c.workDir then .root else fs.cwd) c.workDir =
      .ok dir := by
    rw [FileSystem.resolve, Path.resolve_eq_scan _ hne] at h
    cases hscan : Path.scan (if Path.isAbsolute c.workDir then .root else fs.cwd) c.workDir with
    | error e => rw [hscan] at h; cases h
    | ok q => rw [hscan] at h; exact congrArg Except.ok (Except.ok.inj h)
  have hnul : '\x00' ∉ (c.workPath name).toList := by
    intro hmem
    rw [toList_workPath, List.mem_append, List.mem_cons] at hmem
    rcases hmem with hmem | hmem | hmem
    · refine Path.nul_notMem_of_scan hscan ?_
      rw [Text.dropEndWhile, List.mem_reverse] at hmem
      exact List.mem_reverse.1 ((List.dropWhile_suffix _).subset hmem)
    · exact absurd hmem (by decide)
    · exact Path.nul_notMem_of_isComponent hname hmem
  have hpath : c.workPath name ≠ "" := by
    intro hempty
    have hlist := toList_workPath c name
    rw [hempty] at hlist
    exact List.append_ne_nil_of_right_ne_nil _ (List.cons_ne_nil _ _) hlist.symm
  obtain ⟨p, hp, hparts, -⟩ :=
    Path.scan_eq_ok (if Path.isAbsolute c.workDir then .root else fs.cwd) hnul
  refine ⟨p, ?_, ?_, trailing_of_scan_workPath hname hp⟩
  · rw [FileSystem.resolve, Path.resolve_eq_scan _ hpath, isAbsolute_workPath_eq hne, hp]
    rfl
  · rw [hparts, pieces_workPath c hname, List.foldl_concat, Path.enter_of_isComponent _ hname,
      foldl_enter_dropEnd, (Path.scan_ok hscan).1]
    rfl

end Config

namespace FileSystem

/-! ## Differing in some files of a directory -/

/-- A listing without those of some names that are files. -/
def besides (fs : FileSystem) (dir : Path) (names listed : List String) : List String :=
  listed.filter fun name =>
    !(decide (name ∈ names) && (fs.contentAt (dir.dirKey ++ name)).any Sum.isLeft)

/-- Two file systems have a directory in common and differ only in whether some names in it are
    files and with what bytes, in what is in the output buffers, and in times. -/
structure DifferIn (dir : Path) (names : List String) (fs fs' : FileSystem) : Prop where
  content : ∀ key, key ≠ dir.dirKey → (∀ name ∈ names, key ≠ dir.dirKey ++ name) →
    fs.contentAt key = fs'.contentAt key
  listing : ∃ listed listed', fs.contentAt dir.dirKey = some (.inr listed) ∧
    fs'.contentAt dir.dirKey = some (.inr listed') ∧
    fs.besides dir names listed = fs'.besides dir names listed'
  descriptors : fs.descriptors = fs'.descriptors
  nextDescriptor : fs.nextDescriptor = fs'.nextDescriptor
  cwd : fs.cwd = fs'.cwd

/-- A file system comes of another by striking a name in a directory, if it is a file. -/
structure Struck (dir : Path) (name : String) (fs fs' : FileSystem) : Prop where
  content : ∀ key, key ≠ dir.dirKey → key ≠ dir.dirKey ++ name →
    fs'.contentAt key = fs.contentAt key
  gone : fs'.contentAt (dir.dirKey ++ name) = none
  listing : ∀ listed, fs.contentAt dir.dirKey = some (.inr listed) →
    fs'.contentAt dir.dirKey = some (.inr (fs.besides dir [name] listed))
  descriptors : fs'.descriptors = fs.descriptors
  nextDescriptor : fs'.nextDescriptor = fs.nextDescriptor
  cwd : fs'.cwd = fs.cwd
  stdout : fs'.stdout = fs.stdout
  stderr : fs'.stderr = fs.stderr

variable {fs fs' : FileSystem} {dir p : Path} {name : String} {names : List String}

/-- A file is kept under the key of its directory and its name. -/
theorem fileKey_below (hp : p.parts = dir.parts ++ [name]) : p.fileKey = dir.dirKey ++ name := by
  have hne : p.parts ≠ [] := by
    rw [hp]
    exact List.append_ne_nil_of_right_ne_nil _ (List.cons_ne_nil _ _)
  apply String.toList_injective
  rw [Path.toList_fileKey hne, hp, String.toList_append, Path.toList_dirKey]
  simp

/-- Names of a directory have keys of their own. -/
theorem dirKey_append_inj {other : String} :
    dir.dirKey ++ name = dir.dirKey ++ other ↔ name = other := by
  constructor
  · intro heq
    have hlist := congrArg String.toList heq
    rw [String.toList_append, String.toList_append] at hlist
    exact String.toList_injective (List.append_cancel_left hlist)
  · rintro rfl
    rfl

theorem dirKey_append_ne (hname : name ≠ "") : dir.dirKey ++ name ≠ dir.dirKey := by
  intro heq
  have hlist := congrArg String.toList heq
  rw [String.toList_append] at hlist
  exact hname (String.toList_eq_nil_iff.1 (List.append_right_eq_self.1 hlist))

namespace DifferIn

theorem isDir (h : DifferIn dir names fs fs') : fs.isDir dir = true := by
  obtain ⟨listed, _, hlisted, -⟩ := h.listing
  rw [isDir_eq_contentAt, hlisted]
  rfl

theorem isDir' (h : DifferIn dir names fs fs') : fs'.isDir dir = true := by
  obtain ⟨_, listed', -, hlisted', -⟩ := h.listing
  rw [isDir_eq_contentAt, hlisted']
  rfl

theorem resolve (h : DifferIn dir names fs fs') (text : String) :
    fs'.resolve text = fs.resolve text := by
  rw [FileSystem.resolve, FileSystem.resolve, h.cwd]

theorem clearOutput (h : DifferIn dir names fs fs') :
    DifferIn dir names fs.clearOutput fs'.clearOutput :=
  ⟨h.content, h.listing, h.descriptors, h.nextDescriptor, h.cwd⟩

/-- Directories are the same, in the places of the names as elsewhere. -/
theorem isDir_below (h : DifferIn dir names fs fs') (hp : p.parts = dir.parts ++ [name])
    (hnames : ∀ other ∈ names, ∃ q : Path, q.parts = dir.parts ++ [other]) :
    fs'.isDir p = fs.isDir p := by
  rw [isDir_eq_contentAt, isDir_eq_contentAt, h.content p.dirKey ?_ ?_]
  · intro heq
    have hparts := Path.dirKey_inj.1 heq
    rw [hp] at hparts
    exact absurd (List.append_right_eq_self.1 hparts) (List.cons_ne_nil _ _)
  · intro other hother heq
    obtain ⟨q, hq⟩ := hnames other hother
    have hne : q.parts ≠ [] := by
      rw [hq]
      exact List.append_ne_nil_of_right_ne_nil _ (List.cons_ne_nil _ _)
    rw [← fileKey_below hq] at heq
    exact Path.fileKey_ne_dirKey hne p heq.symm

/-- Where all the names are vacant, nothing is left to differ in but buffers and times. -/
theorem sameContent (h : DifferIn dir names fs fs')
    (hvacant : ∀ name ∈ names, fs.contentAt (dir.dirKey ++ name) = none ∧
      fs'.contentAt (dir.dirKey ++ name) = none)
    (hout : fs.stdout = fs'.stdout) (herr : fs.stderr = fs'.stderr) : SameContent fs fs' := by
  refine ⟨fun key => ?_, h.descriptors, h.nextDescriptor, h.cwd, hout, herr⟩
  by_cases hdir : key = dir.dirKey
  · -- nothing is left out of the listings
    obtain ⟨listed, listed', hlisted, hlisted', hsame⟩ := h.listing
    have hall : fs.besides dir names listed = listed := by
      refine List.filter_eq_self.2 fun name _ => ?_
      by_cases hmem : name ∈ names
      · simp [(hvacant name hmem).1]
      · simp [hmem]
    have hall' : fs'.besides dir names listed' = listed' := by
      refine List.filter_eq_self.2 fun name _ => ?_
      by_cases hmem : name ∈ names
      · simp [(hvacant name hmem).2]
      · simp [hmem]
    rw [hall, hall'] at hsame
    rw [hdir, hlisted, hlisted', hsame]
  · by_cases hname : ∃ name ∈ names, key = dir.dirKey ++ name
    · obtain ⟨name, hmem, rfl⟩ := hname
      rw [(hvacant name hmem).1, (hvacant name hmem).2]
    · exact h.content key hdir fun name hmem heq => hname ⟨name, hmem, heq⟩

end DifferIn

/-! ## Striking a name -/

/-- Leaving out one name after the others is leaving out all of them. -/
theorem Struck.besides_cons (h : Struck dir name fs fs') {listed : List String}
    (hlisted : fs.contentAt dir.dirKey = some (.inr listed)) :
    fs'.besides dir names (fs.besides dir [name] listed) =
      fs.besides dir (name :: names) listed := by
  unfold besides
  rw [List.filter_filter]
  refine List.filter_congr fun other _ => ?_
  by_cases hother : other = name
  · subst hother
    simp [h.gone]
  · have hsame : (fs'.contentAt (dir.dirKey ++ other)).any Sum.isLeft =
        (fs.contentAt (dir.dirKey ++ other)).any Sum.isLeft := by
      by_cases hempty : other = ""
      · -- the empty name would stand for the directory itself
        subst hempty
        rw [String.append_empty, hlisted, h.listing listed hlisted]
        rfl
      · rw [h.content _ (dirKey_append_ne hempty) (mt dirKey_append_inj.1 hother)]
    simp [hsame, hother]

/-- When a name is struck on both sides, it makes no difference any more. -/
theorem DifferIn.struck {g g' : FileSystem} (h : DifferIn dir (name :: names) fs fs')
    (hg : Struck dir name fs g) (hg' : Struck dir name fs' g') : DifferIn dir names g g' := by
  obtain ⟨listed, listed', hlisted, hlisted', hsame⟩ := h.listing
  refine ⟨fun key hdir hnames => ?_, ⟨_, _, hg.listing listed hlisted, hg'.listing listed' hlisted',
    ?_⟩, ?_, ?_, ?_⟩
  · by_cases hkey : key = dir.dirKey ++ name
    · rw [hkey, hg.gone, hg'.gone]
    · rw [hg.content key hdir hkey, hg'.content key hdir hkey]
      refine h.content key hdir fun other hother => ?_
      rcases List.mem_cons.1 hother with rfl | hother
      · exact hkey
      · exact hnames other hother
  · rw [hg.besides_cons hlisted, hg'.besides_cons hlisted', hsame]
  · rw [hg.descriptors, hg'.descriptors, h.descriptors]
  · rw [hg.nextDescriptor, hg'.nextDescriptor, h.nextDescriptor]
  · rw [hg.cwd, hg'.cwd, h.cwd]

/-- Nothing has to be struck where nothing is. -/
theorem struck_of_vacant (h : fs.contentAt (dir.dirKey ++ name) = none) :
    Struck dir name fs fs := by
  refine ⟨fun _ _ _ => rfl, h, fun listed hlisted => ?_, rfl, rfl, rfl, rfl, rfl⟩
  have hall : fs.besides dir [name] listed = listed := by
    refine List.filter_eq_self.2 fun other _ => ?_
    by_cases hother : other = name
    · simp [hother, h]
    · simp [hother]
  rw [hall, hlisted]

/-- A file that is unlinked is struck. -/
theorem struck_of_unlink {text : String} (hresolve : fs.resolve text = .ok p)
    (hp : p.parts = dir.parts ++ [name]) (hname : name ≠ "") (hfile : fs.isFile p = true) :
    ∃ left, fs.unlink text = .ok left ∧ Struck dir name fs left := by
  obtain ⟨parent, hparent, hparts⟩ := parent?_eq hp
  have hkey : parent.dirKey = dir.dirKey := Path.dirKey_inj.2 hparts
  have hbelow := fileKey_below hp
  have hleft : (fs.remove p.fileKey).unlinkName p =
      { fs with nodes := (fs.nodes.remove p.fileKey).update dir.dirKey (·.dropName fs.clock name) } := by
    rw [unlinkName, hparent, fileName?_eq hp]
    dsimp only
    rw [hkey]
    rfl
  have hcontent : ∀ key, ((fs.remove p.fileKey).unlinkName p).contentAt key =
      if dir.dirKey = key then (fs.contentAt key).map (Sum.map id (List.filter (· ≠ name)))
      else if p.fileKey = key then none else fs.contentAt key := by
    intro key
    rw [hleft, contentAt, Dictionary.get?_update, Dictionary.get?_remove]
    split
    · next hdir =>
      have hne : p.fileKey ≠ key := by
        rw [hbelow, ← hdir]
        exact dirKey_append_ne hname
      rw [if_neg hne, contentAt, Option.map_map, Option.map_map]
      congr 1
      funext node
      exact Node.content_dropName fs.clock name node
    · split
      · rfl
      · rfl
  refine ⟨(fs.remove p.fileKey).unlinkName p, ?_, ?_⟩
  · rw [unlink, hresolve]
    show (if (!fs.isFile p) = true then _ else _) = _
    rw [hfile]
    rfl
  · refine ⟨fun key hdir hfileKey => ?_, ?_, fun listed hlisted => ?_, ?_, ?_, ?_, ?_, ?_⟩
    · rw [hcontent, if_neg (Ne.symm hdir), if_neg (hbelow ▸ Ne.symm hfileKey)]
    · rw [hcontent, if_neg (Ne.symm (dirKey_append_ne hname)), if_pos hbelow]
    · rw [hcontent, if_pos rfl, hlisted]
      have hdrop : fs.besides dir [name] listed = listed.filter (· ≠ name) := by
        refine List.filter_congr fun other _ => ?_
        by_cases hother : other = name
        · subst hother
          rw [isFile_eq_contentAt, hbelow] at hfile
          simp [hfile]
        · simp [hother]
      rw [hdrop]
      rfl
    all_goals rw [hleft]

/-- In a reachable file system nothing but a file is kept under the key of a file. -/
theorem Reachable.contentAt_eq_none (h : Reachable fs) (hp : p.parts = dir.parts ++ [name])
    (hfile : fs.isFile p = false) : fs.contentAt (dir.dirKey ++ name) = none := by
  obtain ⟨v, hv⟩ := h.shows
  have hne : p.parts ≠ [] := by
    rw [hp]
    exact List.append_ne_nil_of_right_ne_nil _ (List.cons_ne_nil _ _)
  rw [hv.table.isFile_eq] at hfile
  rw [contentAt, ← fileKey_below hp, hv.table.get?_fileKey hne]
  cases hnode : v p.parts with
  | none => rfl
  | some node =>
    rw [hnode, Option.any_some] at hfile
    rw [Option.filter_some, hfile]
    rfl

theorem Reachable.isFile_of_isDir (h : Reachable fs) (hdir : fs.isDir p = true) :
    fs.isFile p = false :=
  Bool.eq_false_iff.2 fun hfile => h.wellFormed.exclusive p ⟨hfile, hdir⟩

/-- A directory that is there is made by doing nothing. -/
theorem Reachable.makeDir_of_isDir (h : Reachable fs) {text : String}
    (hresolve : fs.resolve text = .ok p) (hdir : fs.isDir p = true) :
    fs.makeDir text true = (.ok (), fs) := by
  obtain ⟨node, hnode, hisDir⟩ := (Option.any_eq_true _ _).1 hdir
  have habove : ∀ d ∈ p.ancestors ++ [p], fs.isDir d = true := by
    intro d hd
    rcases List.mem_append.1 hd with hd | hd
    · obtain ⟨n, hn, rfl⟩ := List.mem_map.1 hd
      refine h.wellFormed.rooted p node ?_ n (List.mem_range.1 hn)
      rw [hisDir]
      exact hnode
    · exact List.mem_singleton.1 hd ▸ hdir
  have hmade := makeEach_append_of_isDir habove []
  rw [List.append_nil] at hmade
  unfold makeDir makeDirs
  rw [hresolve]
  exact hmade

end FileSystem

namespace Session

open FileSystem (SameContent Reachable DifferIn Struck)

/-- The names of what a session builds in its work directory. -/
def outputNames : List String := ["main.a", "main.wasm"]

/-! ## Resetting the workspace -/

section Reset

variable {c : Config} {dir p : Path} {name path : String} {d : Draft World}

/-- Something that is no directory is removed, and at any rate its name is vacant then. -/
theorem removeStale_strikes (hfs : Reachable d.fs) (hresolve : d.fs.resolve path = .ok p)
    (hp : p.parts = dir.parts ++ [name]) (hname : name ≠ "") (hdir : d.fs.isDir p = false) :
    ∃ fs, Step.on (removeStale path) d = (.ok (), { d with fs := fs }) ∧
      Struck dir name d.fs fs ∧ Reachable fs := by
  cases hfile : d.fs.isFile p with
  | true =>
    obtain ⟨fs, hunlink, hstruck⟩ := FileSystem.struck_of_unlink hresolve hp hname hfile
    refine ⟨fs, ?_, hstruck, ?_⟩
    · simp only [removeStale, change, Step.on_bind, Step.on_get, Step.on_set, hunlink,
        Step.on_pure]
    · have hstep := Reachable.step none () (.unlink path) hfs
      rw [FileSystem.perform, hunlink] at hstep
      exact hstep
  | false =>
    have hunlink : d.fs.unlink path = .error (.notFound p.toString) := by
      rw [FileSystem.unlink, hresolve]
      show (if (!d.fs.isFile p) = true then _ else _) = _
      rw [hfile, hdir]
      rfl
    refine ⟨d.fs, ?_, FileSystem.struck_of_vacant (hfs.contentAt_eq_none hp hfile), hfs⟩
    simp only [removeStale, change, Step.on_bind, Step.on_get, Step.on_set, hunlink, Step.on_pure]

/-- A directory is not removed, but stops the session. -/
theorem removeStale_blocked (hfs : Reachable d.fs) (hresolve : d.fs.resolve path = .ok p)
    (hdir : d.fs.isDir p = true) : Step.on (removeStale path) d =
      (.error (.error (.fileSystem (.isDirectory p.toString))), d) := by
  have hunlink : d.fs.unlink path = .error (.isDirectory p.toString) := by
    rw [FileSystem.unlink, hresolve]
    show (if (!d.fs.isFile p) = true then _ else _) = _
    rw [hfs.isFile_of_isDir hdir, hdir]
    rfl
  simp only [removeStale, change, Step.on_bind, Step.on_get, Step.on_set, hunlink, Step.on_abort]

/-- Where the work directory is there, the reset clears the buffers and removes what was built. -/
theorem on_resetWorkspace (hfs : Reachable d.fs) (hdir : d.fs.resolve c.workDir = .ok dir)
    (hisDir : d.fs.isDir dir = true) : Step.on (resetWorkspace c) d =
      Step.on (removeStale c.mainArchivePath >>= fun _ => removeStale c.modulePath)
        { d with fs := d.fs.clearOutput } := by
  have hmade : d.fs.clearOutput.makeDir c.workDir true = (.ok (), d.fs.clearOutput) :=
    (reachable_clearOutput hfs).makeDir_of_isDir hdir hisDir
  simp only [resetWorkspace, change, Step.on_bind, Step.on_modify, Step.on_get, Step.on_set,
    hmade, Step.on_pure]

/-- Where two drafts differ in one name alone, they do not after it was removed, and where it cannot
    be removed, they did not before. -/
theorem removeStale_agrees {e e' : Draft World} (htold : Draft.Retells e e') (he : Reachable e.fs)
    (he' : Reachable e'.fs) (hresolve : e.fs.resolve path = .ok p)
    (hp : p.parts = dir.parts ++ [name]) (hname : name ≠ "") (h : DifferIn dir [name] e.fs e'.fs)
    (hout : e.fs.stdout = e'.fs.stdout) (herr : e.fs.stderr = e'.fs.stderr) :
    (Step.on (removeStale path) e).1 = (Step.on (removeStale path) e').1 ∧
      Draft.Same (Step.on (removeStale path) e).2 (Step.on (removeStale path) e').2 := by
  have hresolve' : e'.fs.resolve path = .ok p := by rw [h.resolve, hresolve]
  have hdir : e'.fs.isDir p = e.fs.isDir p := h.isDir_below hp fun other hother =>
    ⟨p, by rw [hp, List.mem_singleton.1 hother]⟩
  cases hfree : e.fs.isDir p with
  | false =>
    obtain ⟨fs, hon, hgone, hfs⟩ := removeStale_strikes he hresolve hp hname hfree
    obtain ⟨fs', hon', hgone', hfs'⟩ :=
      removeStale_strikes he' hresolve' hp hname (hdir.trans hfree)
    have hsame : SameContent fs fs' := by
      refine (h.struck hgone hgone').sameContent (by simp) ?_ ?_
      · rw [hgone.stdout, hgone'.stdout, hout]
      · rw [hgone.stderr, hgone'.stderr, herr]
    rw [hon, hon']
    exact ⟨rfl, htold.of_fs fs fs', hsame, hfs, hfs'⟩
  | true =>
    have hvacant : ∀ other ∈ [name], e.fs.contentAt (dir.dirKey ++ other) = none ∧
        e'.fs.contentAt (dir.dirKey ++ other) = none := by
      intro other hother
      rw [List.mem_singleton.1 hother]
      exact ⟨he.contentAt_eq_none hp (he.isFile_of_isDir hfree),
        he'.contentAt_eq_none hp (he'.isFile_of_isDir (hdir.trans hfree))⟩
    rw [removeStale_blocked he hresolve hfree,
      removeStale_blocked he' hresolve' (hdir.trans hfree)]
    exact ⟨rfl, htold, h.sameContent hvacant hout herr, he, he'⟩

/-- The reset makes two file systems the same that differ in what was built. Only a directory in
    the place of the archive stops it before, on both sides. -/
theorem resetWorkspace_converges {d d' : Draft World} (htold : Draft.Retells d d')
    (hfs : Reachable d.fs) (hfs' : Reachable d'.fs) (hdir : d.fs.resolve c.workDir = .ok dir)
    (h : DifferIn dir outputNames d.fs d'.fs) :
    ∃ a, d.fs.resolve c.mainArchivePath = .ok a ∧ a.parts = dir.parts ++ ["main.a"] ∧
      (d.fs.isDir a = false →
        (Step.on (resetWorkspace c) d).1 = (Step.on (resetWorkspace c) d').1 ∧
        Draft.Same (Step.on (resetWorkspace c) d).2 (Step.on (resetWorkspace c) d').2) ∧
      (d.fs.isDir a = true →
        Step.on (resetWorkspace c) d =
          (.error (.error (.fileSystem (.isDirectory a.toString))),
            { d with fs := d.fs.clearOutput }) ∧
        Step.on (resetWorkspace c) d' =
          (.error (.error (.fileSystem (.isDirectory a.toString))),
            { d' with fs := d'.fs.clearOutput })) := by
  obtain ⟨a, ha, haparts, -⟩ :=
    Config.resolve_workPath hdir (show Path.isComponent "main.a" = true by decide)
  obtain ⟨m, hm, hmparts, -⟩ :=
    Config.resolve_workPath hdir (show Path.isComponent "main.wasm" = true by decide)
  have hnames : ∀ name ∈ outputNames, ∃ q : Path, q.parts = dir.parts ++ [name] := by
    intro name hname
    simp only [outputNames, List.mem_cons, List.not_mem_nil, or_false] at hname
    rcases hname with rfl | rfl
    · exact ⟨a, haparts⟩
    · exact ⟨m, hmparts⟩
  have hdir' : d'.fs.resolve c.workDir = .ok dir := by rw [h.resolve, hdir]
  have ha' : d'.fs.resolve (c.workPath "main.a") = .ok a := by rw [h.resolve, ha]
  have hadir : d'.fs.isDir a = d.fs.isDir a := h.isDir_below haparts hnames
  rw [on_resetWorkspace hfs hdir h.isDir, on_resetWorkspace hfs' hdir' h.isDir',
    Config.mainArchivePath]
  refine ⟨a, ha, haparts, fun hfree => ?_, fun hblocked => ⟨?_, ?_⟩⟩
  · -- the archive is removed on both sides, and the module is what is left to differ in
    obtain ⟨g, hon, hstruck, hg⟩ := removeStale_strikes (d := { d with fs := d.fs.clearOutput })
      (reachable_clearOutput hfs) ha haparts (by decide) hfree
    obtain ⟨g', hon', hstruck', hg'⟩ :=
      removeStale_strikes (d := { d' with fs := d'.fs.clearOutput })
        (reachable_clearOutput hfs') ha' haparts (by decide) (hadir.trans hfree)
    have hmodule : g.resolve c.modulePath = .ok m := by
      rw [FileSystem.resolve, hstruck.cwd]
      exact hm
    rw [Step.on_bind, Step.on_bind, hon, hon']
    refine removeStale_agrees (htold.of_fs g g') hg hg' hmodule hmparts (by decide)
      (h.clearOutput.struck hstruck hstruck') ?_ ?_
    · exact hstruck.stdout.trans hstruck'.stdout.symm
    · exact hstruck.stderr.trans hstruck'.stderr.symm
  · rw [Step.on_bind, removeStale_blocked (d := { d with fs := d.fs.clearOutput })
      (reachable_clearOutput hfs) ha hblocked]
  · rw [Step.on_bind, removeStale_blocked (d := { d' with fs := d'.fs.clearOutput })
      (reachable_clearOutput hfs') ha' (hadir.trans hblocked)]

end Reset

/-! ## The session -/

/-- From the reset on the two runs go side by side. -/
theorem stages_converge {w : Workshop World} (ht : w.toolchain.Timeless w.mount) (kind : Kind)
    (manifest : Option Manifest) {dir : Path} {d d' : Draft World} (htold : Draft.Retells d d')
    (hfs : Reachable d.fs) (hfs' : Reachable d'.fs)
    (hdir : d.fs.resolve w.config.workDir = .ok dir) (h : DifferIn dir outputNames d.fs d'.fs) :
    ∃ a, d.fs.resolve w.config.mainArchivePath = .ok a ∧ a.parts = dir.parts ++ ["main.a"] ∧
      (d.fs.isDir a = false →
        (Step.on (stages w kind manifest) d).1 = (Step.on (stages w kind manifest) d').1 ∧
        Draft.Same (Step.on (stages w kind manifest) d).2 (Step.on (stages w kind manifest) d').2) ∧
      (d.fs.isDir a = true →
        Step.on (stages w kind manifest) d =
          (.error (.error (.fileSystem (.isDirectory a.toString))),
            { d with fs := d.fs.clearOutput }) ∧
        Step.on (stages w kind manifest) d' =
          (.error (.error (.fileSystem (.isDirectory a.toString))),
            { d' with fs := d'.fs.clearOutput })) := by
  obtain ⟨a, ha, haparts, hfree, hblocked⟩ := resetWorkspace_converges htold hfs hfs' hdir h
  refine ⟨a, ha, haparts, fun hcase => ?_, fun hcase => ?_⟩
  · obtain ⟨hresult, hsame⟩ := hfree hcase
    rw [stages_eq_build, Step.on_bind, Step.on_bind]
    rcases hon : Step.on (resetWorkspace w.config) d with ⟨result, e⟩
    rcases hon' : Step.on (resetWorkspace w.config) d' with ⟨result', e'⟩
    rw [hon, hon'] at hresult hsame
    cases hresult
    cases result with
    | error i => exact ⟨rfl, hsame⟩
    | ok done =>
      have hagree := agree_build ht kind manifest
      exact ⟨hagree.result hsame, hagree.left hsame⟩
  · obtain ⟨hon, hon'⟩ := hblocked hcase
    rw [stages_eq_build, Step.on_bind, Step.on_bind, hon, hon']
    exact ⟨rfl, rfl⟩

/-- A session is told the same over whatever an earlier one has built, and ends with the same file
    system. Only where a directory is in the place of the archive it ends at once, with what was
    there. -/
theorem conduct_over_leftovers {w : Workshop World} (ht : w.toolchain.Timeless w.mount)
    {fs fs' : FileSystem} (hfs : fs.Reachable) (hfs' : fs'.Reachable) {dir : Path}
    (hdir : fs.resolve w.config.workDir = .ok dir) (h : DifferIn dir outputNames fs fs')
    (kind : Kind) (manifest : Option Manifest) (source : String) (world : World) :
    let ended := conduct w kind manifest source fs world
    let ended' := conduct w kind manifest source fs' world
    ended.1 = ended'.1 ∧ Draft.Retells ended.2 ended'.2 ∧
      ∃ a, fs.resolve w.config.mainArchivePath = .ok a ∧ a.parts = dir.parts ++ ["main.a"] ∧
        (fs.isDir a = false → SameContent ended.2.fs ended'.2.fs) ∧
        (fs.isDir a = true → ended.1 = .error (.fileSystem (.isDirectory a.toString)) ∧
          ended.2.fs = fs.clearOutput ∧ ended'.2.fs = fs'.clearOutput) := by
  intro ended ended'
  have hended : ended = concluded w kind (Step.on (stages w kind manifest)
      (.start kind source (1000 * w.config.timeoutSeconds) fs world)) :=
    conduct_eq_concluded w kind manifest source fs world
  have hended' : ended' = concluded w kind (Step.on (stages w kind manifest)
      (.start kind source (1000 * w.config.timeoutSeconds) fs' world)) :=
    conduct_eq_concluded w kind manifest source fs' world
  have htold : Draft.Retells (.start kind source (1000 * w.config.timeoutSeconds) fs world)
      (.start kind source (1000 * w.config.timeoutSeconds) fs' world) :=
    ⟨rfl, rfl, rfl, rfl, rfl, rfl, .nil, rfl⟩
  obtain ⟨a, ha, haparts, hfree, hblocked⟩ :=
    stages_converge ht kind manifest htold hfs hfs' hdir h
  rw [hended, hended']
  cases hcase : fs.isDir a with
  | false =>
    obtain ⟨hresult, hsame⟩ := hfree hcase
    obtain ⟨hconcluded, hretold⟩ := concluded_retells w kind hresult hsame.told
    exact ⟨hconcluded, hretold, a, ha, haparts,
      fun _ => concluded_sameContent w kind hresult hsame.fs,
      fun hdir => absurd (hcase.symm.trans hdir) Bool.false_ne_true⟩
  | true =>
    obtain ⟨hon, hon'⟩ := hblocked hcase
    have hresult : (Step.on (stages w kind manifest)
        (.start kind source (1000 * w.config.timeoutSeconds) fs world)).1 =
        (Step.on (stages w kind manifest)
          (.start kind source (1000 * w.config.timeoutSeconds) fs' world)).1 := by rw [hon, hon']
    obtain ⟨hconcluded, hretold⟩ := concluded_retells w kind hresult (by
      rw [hon, hon']
      exact htold.of_fs _ _)
    refine ⟨hconcluded, hretold, a, ha, haparts,
      fun hdir => absurd (hdir.symm.trans hcase) Bool.false_ne_true, fun _ => ⟨?_, ?_, ?_⟩⟩
    · rw [hon]
      rfl
    · rw [hon]
      rfl
    · rw [hon']
      rfl

/-! ## Tools that look around -/

/-- A compiler and a linker that put in their output whether they have found one there already. -/
def watchful : Toolchain World where
  run _ tool args patience fs world :=
    match tool with
    | .format => (.exited 0 patience, fs, world)
    | .compile | .link =>
      let output := Rehearsal.argAfter "-o" args
      let text := if fs.contains output then "found" else "built"
      (.exited 0 patience, (fs.writeFile output text.toUTF8).2, world)

theorem timeless_watchful (mount : Option (Asset.Mount World)) :
    (watchful : Toolchain World).Timeless mount where
  reachable tool args patience fs world h := by
    cases tool with
    | format => exact h
    | compile => exact reachable_writeFile h _ _
    | link => exact reachable_writeFile h _ _
  same tool args patience fs fs' world _ _ h := by
    cases tool with
    | format => exact ⟨rfl, h, rfl⟩
    | compile =>
      dsimp only [watchful]
      rw [h.contains]
      exact ⟨rfl, (h.writeFile _ _).left, rfl⟩
    | link =>
      dsimp only [watchful]
      rw [h.contains]
      exact ⟨rfl, (h.writeFile _ _).left, rfl⟩

/-- A workshop with these tools, whose frames report at once. -/
def lookout : Workshop Unit :=
  ⟨.default, none, watchful, ⟨fun _ _ world => (.ok .complete, world)⟩⟩

/-- The work directory of the lookout. -/
def tmp : Path := ⟨["tmp"], false, by decide, by decide⟩

/-- The file system that some operations lead to from a new one. -/
def furnished (clock : Time) (ops : List FileSystem.Operation) : FileSystem :=
  (FileSystem.performAll none (.empty clock) () ops).2.1

theorem reachable_furnished (clock : Time) (ops : List FileSystem.Operation) :
    (furnished clock ops).Reachable :=
  Reachable.performAll none ops () (.new clock)

/-- A work directory with some notes in it. -/
def swept : FileSystem := furnished ⟨0, 0⟩ [.writeFile "/tmp/notes" "n".toUTF8]

/-- The same later, between an archive and a module, with something in the buffers. -/
def littered : FileSystem :=
  furnished ⟨7, 0⟩ [.writeFile "/tmp/main.wasm" "old".toUTF8, .writeFile "/tmp/notes" "n".toUTF8,
    .writeFile "/tmp/main.a" "old".toUTF8, .write 1 "noise".toUTF8 none]

theorem swept_nodes : swept.nodes =
    [("/", .dir ["tmp"] (.stamp ⟨0, 0⟩)), ("/tmp/", .dir ["notes"] (.stamp ⟨0, 0⟩)),
      ("/tmp/notes", .file "n".toUTF8 (.stamp ⟨0, 0⟩))] := rfl

theorem littered_nodes : littered.nodes =
    [("/", .dir ["tmp"] (.stamp ⟨7, 0⟩)),
      ("/tmp/", .dir ["main.wasm", "notes", "main.a"] (.stamp ⟨7, 0⟩)),
      ("/tmp/main.wasm", .file "old".toUTF8 (.stamp ⟨7, 0⟩)),
      ("/tmp/notes", .file "n".toUTF8 (.stamp ⟨7, 0⟩)),
      ("/tmp/main.a", .file "old".toUTF8 (.stamp ⟨7, 0⟩))] := rfl

theorem differIn_littered : DifferIn tmp outputNames swept littered where
  content key hdir hnames := by
    have hkey : key ≠ "/tmp/" := hdir
    have harchive : key ≠ "/tmp/main.a" := hnames "main.a" (by decide)
    have hmodule : key ≠ "/tmp/main.wasm" := hnames "main.wasm" (by decide)
    unfold FileSystem.contentAt
    rw [swept_nodes, littered_nodes]
    simp only [Dictionary.get?_cons, Dictionary.get?_nil, if_neg hkey.symm, if_neg harchive.symm,
      if_neg hmodule.symm]
    split
    · rfl
    · split
      · rfl
      · rfl
  listing := by
    refine ⟨["notes"], ["main.wasm", "notes", "main.a"], ?_, ?_, ?_⟩
    · unfold FileSystem.contentAt
      rw [swept_nodes]
      decide +kernel
    · unfold FileSystem.contentAt
      rw [littered_nodes]
      decide +kernel
    · unfold FileSystem.besides FileSystem.contentAt
      rw [swept_nodes, littered_nodes]
      decide +kernel
  descriptors := rfl
  nextDescriptor := rfl
  cwd := rfl

/-- Neither what was built nor what was printed before is seen: the tools find nothing, and build the
    module anew. -/
theorem conduct_over_littered :
    let ended := conduct lookout .run (some ⟨[]⟩) "package main\n" swept ()
    let ended' := conduct lookout .run (some ⟨[]⟩) "package main\n" littered ()
    lookout.toolchain.Timeless lookout.mount ∧ swept.Reachable ∧ littered.Reachable ∧
      swept.resolve lookout.config.workDir = .ok tmp ∧
      DifferIn tmp outputNames swept littered ∧ ¬ SameContent swept littered ∧
      ended.1 = ended'.1 ∧ Draft.Retells ended.2 ended'.2 ∧ SameContent ended.2.fs ended'.2.fs ∧
      ∃ session, ended'.1 = .ok session ∧ session.outcome = .ready "built".toUTF8 := by
  intro ended ended'
  have hswept : swept.Reachable := reachable_furnished _ _
  have hlittered : littered.Reachable := reachable_furnished _ _
  have hdir : swept.resolve lookout.config.workDir = .ok tmp := rfl
  obtain ⟨hresult, htold, a, ha, -, hfree, -⟩ :=
    conduct_over_leftovers (w := lookout) (timeless_watchful none) hswept hlittered hdir
      differIn_littered .run (some ⟨[]⟩) "package main\n" ()
  have hvacant : swept.isDir a = false := by
    have hplace : (swept.resolve lookout.config.mainArchivePath).map swept.isDir = .ok false := rfl
    rw [ha] at hplace
    exact Except.ok.inj hplace
  refine ⟨timeless_watchful none, hswept, hlittered, hdir, differIn_littered, fun hsame => ?_, hresult, htold, hfree hvacant, _, rfl, rfl⟩
  have hmodule := congrArg Option.isSome (hsame.content "/tmp/main.wasm")
  unfold FileSystem.contentAt at hmodule
  rw [swept_nodes, littered_nodes] at hmodule
  exact absurd hmodule (by decide +kernel)

/-- A directory in the place of the archive. -/
def obstructed : FileSystem := furnished ⟨0, 0⟩ [.makeDir "/tmp/main.a" true]

/-- The same, beside a module. -/
def obstructedBeside : FileSystem :=
  furnished ⟨0, 0⟩ [.makeDir "/tmp/main.a" true, .writeFile "/tmp/main.wasm" "old".toUTF8]

theorem obstructed_nodes : obstructed.nodes =
    [("/", .dir ["tmp"] (.stamp ⟨0, 0⟩)), ("/tmp/", .dir ["main.a"] (.stamp ⟨0, 0⟩)),
      ("/tmp/main.a/", .emptyDir ⟨0, 0⟩)] := rfl

theorem obstructedBeside_nodes : obstructedBeside.nodes =
    [("/", .dir ["tmp"] (.stamp ⟨0, 0⟩)), ("/tmp/", .dir ["main.a", "main.wasm"] (.stamp ⟨0, 0⟩)),
      ("/tmp/main.a/", .emptyDir ⟨0, 0⟩), ("/tmp/main.wasm", .file "old".toUTF8 (.stamp ⟨0, 0⟩))] :=
  rfl

theorem differIn_obstructed : DifferIn tmp outputNames obstructed obstructedBeside where
  content key hdir hnames := by
    have hkey : key ≠ "/tmp/" := hdir
    have hmodule : key ≠ "/tmp/main.wasm" := hnames "main.wasm" (by decide)
    unfold FileSystem.contentAt
    rw [obstructed_nodes, obstructedBeside_nodes]
    simp only [Dictionary.get?_cons, Dictionary.get?_nil, if_neg hkey.symm, if_neg hmodule.symm]
  listing := by
    refine ⟨["main.a"], ["main.a", "main.wasm"], ?_, ?_, ?_⟩
    · unfold FileSystem.contentAt
      rw [obstructed_nodes]
      decide +kernel
    · unfold FileSystem.contentAt
      rw [obstructedBeside_nodes]
      decide +kernel
    · unfold FileSystem.besides FileSystem.contentAt
      rw [obstructed_nodes, obstructedBeside_nodes]
      decide +kernel
  descriptors := rfl
  nextDescriptor := rfl
  cwd := rfl

/-- A module behind such a directory is not taken away, so the file systems that the session leaves
    still differ in it. -/
theorem leftover_behind_directory :
    ∃ (w : Workshop Unit) (fs fs' : FileSystem) (dir : Path),
      w.toolchain.Timeless w.mount ∧ fs.Reachable ∧ fs'.Reachable ∧
      fs.resolve w.config.workDir = .ok dir ∧ DifferIn dir outputNames fs fs' ∧
      ¬ SameContent (conduct w .format none "package main\n" fs ()).2.fs
        (conduct w .format none "package main\n" fs' ()).2.fs := by
  refine ⟨lookout, obstructed, obstructedBeside, tmp, timeless_watchful none,
    reachable_furnished _ _, reachable_furnished _ _, rfl, differIn_obstructed, fun hsame => ?_⟩
  have hmodule := congrArg Option.isSome (hsame.content "/tmp/main.wasm")
  exact absurd hmodule (by decide +kernel)

end Session

end Workbench
