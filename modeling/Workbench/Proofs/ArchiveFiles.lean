import Workbench.Proofs.Courses
import Workbench.Proofs.HostPaths
import Workbench.Proofs.ServedStore

set_option autoImplicit false

/-! # Files of archives

What a run itself does to the disk: it makes directories, copies archives that a build has named,
appends to the manifest, and removes the work directories that were announced. The file for an
archive is the import path joined to the store. For a relative import path it lies in the store
exactly if no piece of the path leads upwards, and two such paths share a file exactly if they have
the same pieces, as far as these lead anywhere. -/

namespace Workbench.Package

open Host (Disk Job Location)

variable {World : Type}

/-- A build has named an archive for an import path, and since then only the run itself was at work.
    -/
def Names (log : List Deed) (w : WorkDir) (importPath archive : String) : Prop :=
  ∃ package work built, Left log package work built ∧ WorkDir.scan built work package = .ok w ∧
    (importPath, archive) ∈ w.archives

namespace Archivist

/-! ## What a run does itself -/

/-- What a run does to the disk by itself, after some other deeds. -/
inductive Task (a : Archivist World) (early : List Deed) (deed : Deed) : Prop
  /-- At most directories were made. -/
  | paves : Job.Paving deed.before deed.after → Task a early deed
  /-- An archive was copied into its file, as far as that was possible. -/
  | copies {w : WorkDir} {importPath archive : String} : Names early w importPath archive →
      (resultOf (Job.copy archive (a.storeFile importPath)) deed.before).2 = deed.after →
      Task a early deed
  /-- An import path was bound in the manifest, as far as that was possible. -/
  | binds {w : WorkDir} {importPath archive : String} : Names early w importPath archive →
      (resultOf (Manifest.append a.manifestPath (a.recordOf w importPath)) deed.before).2 =
        deed.after → Task a early deed
  | removes : Removes early deed → Task a early deed

/-- All that a run has done by itself are its tasks. -/
def Diligent (a : Archivist World) (log : List Deed) : Prop :=
  ∀ early deed late, log = early ++ deed :: late → deed.cause = .job → a.Task early deed

variable {a : Archivist World} {d d' : Draft (Recorded World)} {cause : Cause}

theorem diligent_nil (a : Archivist World) : a.Diligent [] := by
  intro early deed late h
  simp at h

theorem Diligent.concat {log : List Deed} {deed : Deed} (h : a.Diligent log)
    (htask : deed.cause = .job → a.Task log deed) : a.Diligent (log ++ [deed]) := by
  intro early other late heq hjob
  rcases List.eq_nil_or_concat late with rfl | ⟨late, last, rfl⟩
  · obtain ⟨rfl, hlast⟩ := List.append_inj' heq rfl
    obtain rfl := List.singleton_inj.1 hlast
    exact htask hjob
  · -- the new deed comes later
    rw [List.concat_eq_append, ← List.cons_append, ← List.append_assoc] at heq
    exact h early other late (List.append_inj' heq rfl).1 hjob

/-- A run that has kept to its tasks still has. -/
def Tasked (a : Archivist World) (d d' : Draft (Recorded World)) : Prop :=
  a.Diligent d.log → a.Diligent d'.log

instance (a : Archivist World) : IsPreorder (Draft (Recorded World)) a.Tasked where
  refl _ := id
  trans _ _ _ h h' := h' ∘ h

theorem Follows.tasked (h : a.Follows cause d d')
    (htask : cause = .job → a.Task d.log ⟨cause, a.diskOf d, a.diskOf d'⟩) : a.Tasked d d' := by
  intro hdiligent
  rw [h.log]
  exact hdiligent.concat htask

variable {α : Type} {job : Job α} {result : Except Host.Error α}

theorem Does.tasked (h : a.Does job d result d')
    (htask : a.Task d.log ⟨.job, a.diskOf d, a.diskOf d'⟩) : a.Tasked d d' :=
  h.follows.tasked fun _ => htask

theorem Does.tasked_of_paves (h : a.Does job d result d') (hpaves : job.Paves) : a.Tasked d d' := by
  have hpaved := hpaves (a.diskOf d)
  rw [h.outcome] at hpaved
  exact h.tasked (.paves hpaved)

theorem Does.names {w : WorkDir} {importPath archive : String} (h : a.Does job d result d')
    (hnames : Names d.log w importPath archive) : Names d'.log w importPath archive := by
  obtain ⟨package, work, built, hleft, hscan, hmem⟩ := hnames
  exact ⟨package, work, built, h.toiled.left hleft, hscan, hmem⟩

/-- Whatever comes of archiving an archive, the tasks are kept to. -/
theorem Filing.tasked {w : WorkDir} {importPath archive : String}
    {outcome : Except Host.Error Unit × Draft (Recorded World)}
    (h : a.Filing w importPath archive d outcome) (hnames : Names d.log w importPath archive) :
    a.Tasked d outcome.2 := by
  have hplace : ∀ {d₁ : Draft (Recorded World)} {result : Except Host.Error Unit},
      a.Does (Job.makeParents (a.storeFile importPath)) d result d₁ → a.Tasked d d₁ :=
    fun hplaced => hplaced.tasked_of_paves (Job.paves_makeParents _)
  have hcopy : ∀ {d₁ d₂ : Draft (Recorded World)} {result : Except Host.Error Unit},
      Names d₁.log w importPath archive →
      a.Does (Job.copy archive (a.storeFile importPath)) d₁ result d₂ → a.Tasked d₁ d₂ :=
    fun hnames hcopied => hcopied.tasked (.copies hnames (by rw [hcopied.outcome]))
  have hbind : ∀ {d₂ d₃ : Draft (Recorded World)} {result : Except Host.Error Unit},
      Names d₂.log w importPath archive →
      a.Does (Manifest.append a.manifestPath (a.recordOf w importPath)) d₂ result d₃ →
        a.Tasked d₂ d₃ :=
    fun hnames hbound => hbound.tasked (.binds hnames (by rw [hbound.outcome]))
  cases h with
  | known => exact refl_of a.Tasked d
  | unplaced _ hplaced => exact hplace hplaced
  | uncopied _ hplaced hcopied =>
    exact trans_of a.Tasked (hplace hplaced) (hcopy (hplaced.names hnames) hcopied)
  | unbound _ hplaced hcopied hbound | filed _ hplaced hcopied hbound =>
    have hthere := hplaced.names hnames
    exact trans_of a.Tasked (hplace hplaced)
      (trans_of a.Tasked (hcopy hthere hcopied) (hbind (hcopied.names hthere) hbound))

/-- All parts of a run keep to its tasks. -/
theorem parts_tasked (a : Archivist World) : a.Parts a.Tasked where
  prepared hdoes := hdoes.tasked_of_paves (Job.paves_makeDirs _)
  called hcalled := hcalled.tasked fun hjob => by cases hjob
  noted hworld _ _ := by
    intro hdiligent
    rwa [Draft.log, hworld]
  asked _ _ hasked := hasked.tasked fun hjob => by cases hjob
  read hdoes := hdoes.tasked_of_paves fun disk => by
    rw [Job.resultOf_ask]
    exact refl_of Job.Paving disk
  archived hleft hscan hmem _ hfiling := hfiling.tasked ⟨_, _, _, hleft, hscan, hmem⟩
  removed hbuilt hdoes := hdoes.tasked (.removes ⟨_, _, _, _, hbuilt, hdoes.outcome⟩)

/-- A run does nothing by itself but its tasks, whether it goes through or not. -/
theorem diligent_deeds (hdisk : ∀ w d, a.disk.get (a.disk.set w d) = d) (targets : List Target)
    (progress : Progress) (world : World) : a.Diligent (a.deeds targets progress world) := by
  rw [deeds, run_fresh]
  exact (parts_tasked a).steps hdisk targets (.fresh (world, []) progress) (diligent_nil a)

/-- Unless it removes a work directory, a task changes no file but the manifest or that of an import
    path that a build has named. -/
theorem Task.growing {early : List Deed} {deed : Deed} (h : a.Task early deed) :
    Removes early deed ∨ Job.Growing [a.manifestPath] deed.before deed.after ∨
      ∃ w importPath archive, Names early w importPath archive ∧
        Job.Growing [a.storeFile importPath] deed.before deed.after := by
  cases h with
  | paves hpaved =>
    exact .inr (.inl fun hgrounded => (hpaved hgrounded).grown.mono (List.nil_subset _))
  | @copies w importPath archive hnames hcopy =>
    have hgrows := Job.growing_copy archive (a.storeFile importPath) deed.before
    rw [hcopy] at hgrows
    exact .inr (.inr ⟨w, importPath, archive, hnames, hgrows⟩)
  | @binds w importPath archive _ hbind =>
    have hgrows : Leads (Job.Growing [a.manifestPath])
        (Manifest.append a.manifestPath (a.recordOf w importPath)) := Job.growing_appendLine _ _
    have hgrown := hgrows deed.before
    rw [hbind] at hgrown
    exact .inr (.inl hgrown)
  | removes hremoves => exact .inl hremoves

/-! ## Where archives go -/

variable {i j : String}

/-- The file for an archive goes on from the store by components that lead nowhere upwards. -/
def Contains (a : Archivist World) (importPath : String) : Prop :=
  ∃ more, ".." ∉ more ∧ Location.Extends a.storeDir more (a.storeFile importPath)

theorem isRooted_append (importPath : String) :
    Location.isRooted (importPath ++ ".a") = Location.isRooted importPath := by
  rw [Location.isRooted, Location.isRooted, String.toList_append]
  cases importPath.toList with
  | nil => decide
  | cons c chars => rfl

/-- A relative import path stays in the store unless one of its pieces leads upwards. -/
theorem contains_iff (a : Archivist World) (h : Location.isRooted i = false) :
    a.Contains i ↔ ".." ∉ archiveParts i := by
  rw [← isRooted_append] at h
  refine ⟨?_, Location.exists_extends_join a.storeDir h⟩
  rintro ⟨more, hdown, hextends⟩ hmem
  obtain ⟨more', hextends', -, hway⟩ := Location.exists_extends a.storeDir h
  obtain rfl := hextends.eq_of_eq hextends'
  have hdots : ".." ∈ Disk.wayOf (i ++ ".a") := List.mem_filter.2 ⟨hmem, by decide⟩
  rw [← hway] at hdots
  exact hdown (List.mem_of_mem_filter hdots)

/-- Below the store, an import path that stays in it leads along its own way. -/
theorem placeOf_storeFile_eq (a : Archivist World) (d : Disk) (h : Location.isRooted i = false)
    (hdown : ".." ∉ archiveParts i) :
    d.placeOf (a.storeFile i) = d.placeOf a.storeDir ++ Disk.wayOf (i ++ ".a") := by
  rw [← isRooted_append] at h
  obtain ⟨more, hextends, hmore, hway⟩ := Location.exists_extends a.storeDir h
  rw [← hway]
  exact hextends.placeOf_eq (fun hmem => hdown (hmore hmem)) d

/-- Two import paths that stay in the store share a file if their ways are the same. -/
theorem placeOf_storeFile_eq_iff (a : Archivist World) (d : Disk)
    (hi : Location.isRooted i = false) (hj : Location.isRooted j = false)
    (hdown : ".." ∉ archiveParts i) (hdown' : ".." ∉ archiveParts j) :
    d.placeOf (a.storeFile i) = d.placeOf (a.storeFile j) ↔
      Disk.wayOf (i ++ ".a") = Disk.wayOf (j ++ ".a") := by
  rw [placeOf_storeFile_eq a d hi hdown, placeOf_storeFile_eq a d hj hdown',
    List.append_cancel_left_eq]

end Archivist

/-- An import path whose file lies where its text says. -/
def Plain (importPath : String) : Prop :=
  ∀ piece ∈ archiveParts importPath, piece ≠ "" ∧ piece ≠ "." ∧ piece ≠ ".."

instance (importPath : String) : Decidable (Plain importPath) :=
  inferInstanceAs (Decidable (∀ piece ∈ archiveParts importPath, _))

variable {i j : String}

theorem Plain.isRooted (h : Plain i) : Location.isRooted i = false := by
  rw [← Archivist.isRooted_append]
  exact isRooted_of_notMem fun hmem => (h "" hmem).1 rfl

theorem Plain.down (h : Plain i) : ".." ∉ archiveParts i := fun hmem => (h ".." hmem).2.2 rfl

theorem Plain.wayOf (h : Plain i) : Disk.wayOf (i ++ ".a") = archiveParts i :=
  List.filter_eq_self.2 fun piece hpiece =>
    decide_eq_true ⟨(h piece hpiece).1, (h piece hpiece).2.1⟩

namespace Archivist

variable {a : Archivist World}

/-- The files that a run itself writes for archives are those for import paths that a build has
    named. Such a file lies in the store unless the import path is absolute or goes upwards, and it
    is the file of no other import path as long as no piece of one of them leads nowhere. -/
theorem run_files (hdisk : ∀ w d, a.disk.get (a.disk.set w d) = d) (targets : List Target)
    (progress : Progress) (world : World) :
    a.Diligent (a.deeds targets progress world) ∧
    (∀ early deed late, a.deeds targets progress world = early ++ deed :: late →
      deed.cause = .job → Removes early deed ∨
        Job.Growing [a.manifestPath] deed.before deed.after ∨
        ∃ w i archive, Names early w i archive ∧
          Job.Growing [a.storeFile i] deed.before deed.after) ∧
    (∀ i, Location.isRooted i = false → (a.Contains i ↔ ".." ∉ archiveParts i)) ∧
    (∀ i j, Location.isRooted i = false → Location.isRooted j = false →
      ".." ∉ archiveParts i → ".." ∉ archiveParts j → ∀ d : Disk,
        (d.placeOf (a.storeFile i) = d.placeOf (a.storeFile j) ↔
          Disk.wayOf (i ++ ".a") = Disk.wayOf (j ++ ".a"))) ∧
    ∀ i j, Plain i → Plain j → a.Contains i ∧ a.Contains j ∧
      (i ≠ j → ∀ d : Disk, d.placeOf (a.storeFile i) ≠ d.placeOf (a.storeFile j)) := by
  have hdiligent := diligent_deeds hdisk targets progress world
  refine ⟨hdiligent, fun early deed late hlog hjob => (hdiligent early deed late hlog hjob).growing,
    fun i => contains_iff a, fun i j hi hj hdown hdown' d =>
      placeOf_storeFile_eq_iff a d hi hj hdown hdown', fun i j hi hj => ?_⟩
  refine ⟨(contains_iff a hi.isRooted).2 hi.down, (contains_iff a hj.isRooted).2 hj.down, ?_⟩
  intro hne d hsame
  -- the ways of such import paths are all of their pieces
  have hway := (placeOf_storeFile_eq_iff a d hi.isRooted hj.isRooted hi.down hj.down).1 hsame
  rw [hi.wayOf, hj.wayOf] at hway
  exact hne (archiveParts_inj hway)

/-- A builder for whom each package is one archive. -/
def archiveBuild (packages : List (String × String)) : BuildRehearsal :=
  scripted .empty (packages.map fun package => (package.1, [("work/b001/_pkg_.a", package.2)], "work"))
    []

theorem run_files_tidy :
    rehearsed.Diligent (rehearsed.deeds [.package "x/y"] ⟨[], []⟩ (archiveBuild [("x/y", "A")])) ∧
    (rehearsed.Contains "./x" ∧ rehearsed.Contains ".." ∧ ¬ rehearsed.Contains "x/../y") ∧
    Disk.empty.placeOf (rehearsed.storeFile "./x") = Disk.empty.placeOf (rehearsed.storeFile "x") ∧
    rehearsed.Contains "x/y" ∧
    Disk.empty.placeOf (rehearsed.storeFile "x/y") ≠
      Disk.empty.placeOf (rehearsed.storeFile "x.y") := by
  obtain ⟨hdiligent, -, hcontains, hplace, hplain⟩ := run_files (a := rehearsed) (fun _ _ => rfl)
    [.package "x/y"] ⟨[], []⟩ (archiveBuild [("x/y", "A")])
  have hpair := hplain "x/y" "x.y" (by decide) (by decide)
  refine ⟨hdiligent, ⟨?_, ?_, ?_⟩, ?_, hpair.1, hpair.2.2 (by decide) _⟩
  · exact (hcontains _ (by decide)).2 (by decide)
  · exact (hcontains _ (by decide)).2 (by decide)
  · exact fun hinside => (hcontains _ (by decide)).1 hinside (by decide)
  · exact (hplace _ _ (by decide) (by decide) (by decide) (by decide) _).2 (by decide)

/-- A package that is named from above the store is archived there, and two names of one package are
    archived in one file, which then holds what was built last. -/
theorem exists_run_outside :
    (∃ report progress world,
      rehearsed.run [.package "../x"] ⟨[], []⟩ (archiveBuild [("../x", "A")]) =
        (.ok report, progress, world) ∧
      report.records.map (·.importPath) = ["../x"] ∧ ¬ rehearsed.Contains "../x" ∧
      rehearsed.storeFile "../x" = "site/prebuilt/../x.a" ∧
      world.disk.read "site/x.a" = .ok "A".toUTF8) ∧
    ∃ report progress world,
      rehearsed.run [.package "x", .package "./x"] ⟨[], []⟩
        (archiveBuild [("x", "A"), ("./x", "B")]) = (.ok report, progress, world) ∧
      report.records.map (·.importPath) = ["x", "./x"] ∧
      world.disk.read (rehearsed.storeFile "x") = .ok "B".toUTF8 ∧
      world.disk.read (rehearsed.storeFile "./x") = .ok "B".toUTF8 := by
  have houtside : (rehearsed.run [.package "../x"] ⟨[], []⟩
      (archiveBuild [("../x", "A")])).1.toOption.map (·.records.map (·.importPath)) =
        some ["../x"] ∧
      ((rehearsed.run [.package "../x"] ⟨[], []⟩ (archiveBuild [("../x", "A")])).2.2.disk.read
        "site/x.a").toOption = some "A".toUTF8 := by
    decide +kernel
  have htwice : (rehearsed.run [.package "x", .package "./x"] ⟨[], []⟩
      (archiveBuild [("x", "A"), ("./x", "B")])).1.toOption.map (·.records.map (·.importPath)) =
        some ["x", "./x"] ∧
      ∀ i ∈ ["x", "./x"], ((rehearsed.run [.package "x", .package "./x"] ⟨[], []⟩
        (archiveBuild [("x", "A"), ("./x", "B")])).2.2.disk.read
          (rehearsed.storeFile i)).toOption = some "B".toUTF8 := by
    decide +kernel
  obtain ⟨report, progress, world, hrun, hpaths⟩ := exists_run houtside.1
  obtain ⟨report', progress', world', hrun', hpaths'⟩ := exists_run htwice.1
  rw [hrun] at houtside
  rw [hrun'] at htwice
  have hboth : ∀ i ∈ ["x", "./x"], world'.disk.read (rehearsed.storeFile i) = .ok "B".toUTF8 :=
    fun i hi => toOption_eq_some_iff.1 (htwice.2 i hi)
  refine ⟨⟨report, progress, world, hrun, hpaths, fun hinside => ?_, by decide,
    toOption_eq_some_iff.1 houtside.2⟩, report', progress', world', hrun', hpaths',
    hboth "x" (by simp), hboth "./x" (by simp)⟩
  exact (contains_iff rehearsed (by decide)).1 hinside (by decide)

end Archivist

end Workbench.Package
