import Workbench.Proofs.KeptStore
import Workbench.Proofs.ServedStore

set_option autoImplicit false

/-! # What a package needs is there

A package that was built is in the manifest with all that it needs: its work directory names an
archive for each import path that took part in the build, all of these are archived before the
package is reported, and what is archived stays bound and stored. Nothing computes this closure. It
is there because a record depends on import paths that its work directory names, too. -/

namespace Workbench.Package

open Host (Disk Job)

variable {World : Type}

/-- A build has left a work directory, and all that is named there is archived. -/
structure Finished (log : List Deed) (archived : List String) (package work : String)
    (built : Disk) (w : WorkDir) : Prop where
  done : ∃ before, ⟨.build package (some work), before, built⟩ ∈ log
  scanned : WorkDir.scan built work package = .ok w
  archived : ∀ entry ∈ w.archives, entry.1 ∈ archived

theorem Finished.later {log log' : List Deed} {archived archived' : List String}
    {package work : String} {built : Disk} {w : WorkDir}
    (h : Finished log archived package work built w) (hlog : log <+: log')
    (harchived : archived ⊆ archived') : Finished log' archived' package work built w where
  done := h.done.imp fun _ hdone => hlog.subset hdone
  scanned := h.scanned
  archived entry hentry := harchived (h.archived entry hentry)

namespace Archivist

/-- What a report tells of is finished: the packages, and the builds that its records are of. -/
structure Delivered (a : Archivist World) (log : List Deed) (archived : List String)
    (report : Report) : Prop where
  built : ∀ package ∈ report.built, ∃ work built w, Finished log archived package work built w
  records : ∀ r ∈ report.records, ∃ package work built w, package ∈ report.built ∧
    Finished log archived package work built w ∧ r = a.recordOf w r.importPath ∧
    ∃ archive, (r.importPath, archive) ∈ w.archives

variable {a : Archivist World} {log log' : List Deed} {archived archived' : List String}
  {report : Report} {d d' d'' : Draft (Recorded World)} {w : WorkDir} {importPath archive : String}

theorem Delivered.later (h : a.Delivered log archived report) (hlog : log <+: log')
    (harchived : archived ⊆ archived') : a.Delivered log' archived' report where
  built package hpackage := by
    obtain ⟨work, built, w, hfinished⟩ := h.built package hpackage
    exact ⟨work, built, w, hfinished.later hlog harchived⟩
  records r hr := by
    obtain ⟨package, work, built, w, hpackage, hfinished, hrecord⟩ := h.records r hr
    exact ⟨package, work, built, w, hpackage, hfinished.later hlog harchived, hrecord⟩

/-- A run goes on, and what it tells of stays finished. -/
structure Delivers (a : Archivist World) (d d' : Draft (Recorded World)) : Prop where
  logged : d.log <+: d'.log
  archived : d.progress.archived ⊆ d'.progress.archived
  delivered : a.Delivered d.log d.progress.archived d.report →
    a.Delivered d'.log d'.progress.archived d'.report

instance : IsPreorder (Draft (Recorded World)) (Delivers a) where
  refl _ := ⟨List.prefix_rfl, List.Subset.refl _, id⟩
  trans _ _ _ h h' := ⟨h.logged.trans h'.logged, fun _ hi => h'.archived (h.archived hi),
    fun hdelivered => h'.delivered (h.delivered hdelivered)⟩

/-- A run that reports nothing new delivers what it did. -/
theorem delivers_of_same (hlog : d.log <+: d'.log)
    (harchived : d'.progress.archived = d.progress.archived)
    (hbuilt : d'.report.built = d.report.built) (hrecords : d'.report.records = d.report.records) :
    a.Delivers d d' := by
  have hsubset : d.progress.archived ⊆ d'.progress.archived := harchived ▸ List.Subset.refl _
  refine ⟨hlog, hsubset, fun hdelivered => ?_⟩
  have hlater := hdelivered.later hlog hsubset
  exact ⟨hbuilt ▸ hlater.built, by rw [hbuilt, hrecords]; exact hlater.records⟩

theorem Follows.delivers {cause : Cause} (h : a.Follows cause d d') : a.Delivers d d' :=
  delivers_of_same h.logged (by rw [h.progress]) (by rw [h.report])
    (by rw [h.report])

/-! ## Archiving a work directory -/

/-- Records of a work directory were added to a report, and nothing else. -/
structure Shelves (a : Archivist World) (w : WorkDir) (d d' : Draft (Recorded World)) : Prop where
  logged : d.log <+: d'.log
  archived : d.progress.archived ⊆ d'.progress.archived
  built : d'.report.built = d.report.built
  records : ∃ new, d'.report.records = d.report.records ++ new ∧
    ∀ r ∈ new, r = a.recordOf w r.importPath ∧ ∃ archive, (r.importPath, archive) ∈ w.archives

instance : IsPreorder (Draft (Recorded World)) (Shelves a w) where
  refl _ := ⟨List.prefix_rfl, List.Subset.refl _, rfl, [], by simp, by simp⟩
  trans _ _ _ h h' := by
    obtain ⟨new, hrecords, hnew⟩ := h.records
    obtain ⟨new', hrecords', hnew'⟩ := h'.records
    refine ⟨h.logged.trans h'.logged, fun _ hi => h'.archived (h.archived hi),
      h'.built.trans h.built, new ++ new', ?_, fun r hr => ?_⟩
    · rw [hrecords', hrecords, List.append_assoc]
    · exact (List.mem_append.1 hr).elim (hnew r) (hnew' r)

theorem Does.shelves {α : Type} {job : Job α} {result : Except Host.Error α}
    (h : a.Does job d result d') : a.Shelves w d d' where
  logged := h.follows.logged
  archived := h.follows.progress ▸ List.Subset.refl _
  built := by rw [h.follows.report]
  records := ⟨[], by rw [h.follows.report, List.append_nil], by simp⟩

/-- An archive that was filed is archived. -/
theorem Filing.shelves (h : a.Filing w importPath archive d (.ok (), d'))
    (hmem : (importPath, archive) ∈ w.archives) :
    a.Shelves w d d' ∧ importPath ∈ d'.progress.archived := by
  cases h with
  | known hknown => exact ⟨refl_of (a.Shelves w) d, hknown⟩
  | @filed d₁ d₂ d₃ _ hplaced hcopied hbound =>
    have hnext : a.Shelves w d d₃ := trans_of (a.Shelves w) hplaced.shelves
      (trans_of (a.Shelves w) hcopied.shelves hbound.shelves)
    refine ⟨trans_of (a.Shelves w) hnext ?_, List.mem_append_right _ (List.mem_singleton_self _)⟩
    refine ⟨List.prefix_rfl, List.subset_append_left _ _, rfl, [a.recordOf w importPath], rfl, ?_⟩
    intro r hr
    obtain rfl := List.mem_singleton.1 hr
    exact ⟨rfl, archive, hmem⟩

variable (hdisk : ∀ w d, a.disk.get (a.disk.set w d) = d)

include hdisk in
/-- Where archiving goes through, all that is named is archived. -/
theorem shelves_archiveAll {work package : String} {u : Unit}
    (h : Yields (a.recorded.archiveAll work package) d u d') :
    ∃ w, WorkDir.scan (a.diskOf d) work package = .ok w ∧ a.Shelves w d d' ∧
      ∀ entry ∈ w.archives, entry.1 ∈ d'.progress.archived := by
  obtain ⟨w, d₁, hread, hrounds⟩ := rounds_archiveAll h
  have hdoes := does_of_yields hdisk hread
  have hlasts : ∀ (entry : String × String) (s s' : Draft (Recorded World)), a.Shelves w s s' →
      entry.1 ∈ s.progress.archived → entry.1 ∈ s'.progress.archived :=
    fun _ _ _ hshelves hdone => hshelves.archived hdone
  have hfiled := hrounds.done hlasts fun entry hentry d₂ u d₃ hround => ?_
  · exact ⟨w, (Job.yields_ask_iff.1 hdoes.outcome).1,
      trans_of (a.Shelves w) hdoes.shelves hfiled.1, hfiled.2⟩
  · have hfiling := filing hdisk w entry.1 entry.2 d₂
    rw [show resultOf _ d₂ = (.ok u, d₃) from hround] at hfiling
    exact hfiling.shelves hentry

include hdisk in
/-- A package that is reported was finished. -/
theorem Building.delivers {package : String}
    (h : a.Building package d (.ok (), d')) : a.Delivers d d' := by
  cases h with
  | unannounced hbuilt =>
    refine trans_of a.Delivers hbuilt.delivers ?_
    exact delivers_of_same List.prefix_rfl rfl rfl rfl
  | unbuilt hbuilt hremoval =>
    refine trans_of a.Delivers (trans_of a.Delivers hbuilt.delivers hremoval.follows.delivers) ?_
    exact delivers_of_same List.prefix_rfl rfl rfl rfl
  | @built work d₁ d₂ d₃ hbuilds hyields hremoval =>
    obtain ⟨w, hscan, hshelves, hall⟩ := shelves_archiveAll hdisk hyields
    have hlog₁ : d.log <+: d₁.log := hbuilds.follows.logged
    have hlog₃ : d₂.log <+: d₃.log := hremoval.follows.logged
    have harchived : d.progress.archived ⊆ d₃.progress.archived := by
      rw [hremoval.follows.progress, ← hbuilds.follows.progress]
      exact hshelves.archived
    have hlog : d.log <+: d₃.log := hlog₁.trans (hshelves.logged.trans hlog₃)
    have hfinished : Finished d₃.log d₃.progress.archived package work (a.diskOf d₁) w := by
      refine ⟨⟨a.diskOf d, (hshelves.logged.trans hlog₃).subset ?_⟩, hscan, ?_⟩
      · rw [hbuilds.follows.log]
        exact List.mem_append_right _ (List.mem_singleton_self _)
      · rw [hremoval.follows.progress]
        exact hall
    refine ⟨hlog, harchived, fun hdelivered => ?_⟩
    have hlater := hdelivered.later hlog harchived
    have hreported : (d₃.built package).report.built = d.report.built ++ [package] := by
      show d₃.report.built ++ _ = _
      rw [hremoval.follows.report, hshelves.built, hbuilds.follows.report]
    obtain ⟨new, hrecords, hnew⟩ := hshelves.records
    have hnoted : (d₃.built package).report.records = d.report.records ++ new := by
      show d₃.report.records = _
      rw [hremoval.follows.report, hrecords, hbuilds.follows.report]
    constructor
    case built =>
      rw [hreported]
      intro other hother
      rcases List.mem_append.1 hother with hold | hself
      · exact hlater.built other hold
      · obtain rfl := List.mem_singleton.1 hself
        exact ⟨work, _, w, hfinished⟩
    case records =>
      rw [hreported, hnoted]
      intro r hr
      rcases List.mem_append.1 hr with hold | hown
      · obtain ⟨other, work', built', w', hother, hrecord⟩ := hlater.records r hold
        exact ⟨other, work', built', w', List.mem_append_left _ hother, hrecord⟩
      · exact ⟨package, work, _, w, List.mem_append_right _ (List.mem_singleton_self _), hfinished,
          hnew r hown⟩

include hdisk in
/-- What a run tells of that goes through is finished. -/
theorem delivers_steps {targets : List Target} {u : Unit}
    (h : Yields (a.recorded.steps targets) d u d') : a.Delivers d d' := by
  have hcovered : a.Covered a.Delivers fun _ _ _ => True :=
    { prepare hdoes := ⟨fun _ _ => hdoes.follows.delivers, fun _ _ => trivial⟩
      called hcalled := hcalled.delivers
      unlisted _ _ := trivial
      failed _ _ _ := delivers_of_same List.prefix_rfl rfl rfl rfl
      skipped _ _ _ := delivers_of_same List.prefix_rfl rfl rfl rfl
      built {d package outcome} _ _ hbuilding := ⟨fun u hu => by
        obtain ⟨result, d'⟩ := outcome
        obtain rfl := hu
        have htried : a.Delivers d (d.tried package) := delivers_of_same List.prefix_rfl rfl rfl rfl
        exact trans_of a.Delivers htried (hbuilding.delivers hdisk), fun _ _ => trivial⟩ }
  have hended := hcovered.steps hdisk (fun _ _ _ _ _ _ => trivial) targets d
  rw [show resultOf _ d = (.ok u, d') from h] at hended
  exact hended.yields u rfl

include hdisk in
/-- What is reported in any of several runs is finished. -/
theorem delivered_of_runs (calls : List (List Target)) (world : World) :
    ∀ report, .ok report ∈ (a.recorded.runs calls ⟨[], []⟩ (world, [])).1 →
      a.Delivered (a.history calls world)
        (a.recorded.runs calls ⟨[], []⟩ (world, [])).2.1.archived report := by
  refine keeps_of_runs (a := a.recorded)
    (fun results progress world => ∀ report, .ok report ∈ results →
      a.Delivered world.2 progress.archived report)
    (fun results progress world targets hpast report hreport => ?_)
    (fun report hreport => absurd hreport List.not_mem_nil) calls
  obtain ⟨new, records, hbooks⟩ := (parts_booked a).steps hdisk targets (.fresh world progress)
  rw [run_fresh] at hreport ⊢
  rcases hsteps : resultOf (a.recorded.steps targets) (.fresh world progress) with ⟨outcome, d⟩
  rw [hsteps] at hbooks hreport
  have hlog : world.2 <+: d.log := by
    rw [hbooks.log]
    exact List.prefix_append _ _
  have harchived : progress.archived ⊆ d.progress.archived := by
    rw [hbooks.archived]
    exact List.subset_append_left _ _
  rcases List.mem_append.1 hreport with hold | hself
  · exact (hpast report hold).later hlog harchived
  · have hlast := List.mem_singleton.1 hself
    cases outcome with
    | error e => cases hlast
    | ok u =>
      obtain rfl := Except.ok.inj hlast
      exact (delivers_steps hdisk hsteps).delivered ⟨by simp [Draft.fresh], by simp [Draft.fresh]⟩

/-! ## The closure -/

/-- The manifest binds an import path to the place where its archive is served. -/
def Bound (a : Archivist World) (disk : Disk) (importPath : String) : Prop :=
  ∃ m, Manifest.load disk a.manifestPath = .ok m ∧ m.get? importPath = some (a.storedPath importPath)

/-- What was reported in several runs is complete. -/
structure Closed (a : Archivist World) (start : Disk) (log : List Deed)
    (results : List (Except Host.Error Report)) (disk : Disk) : Prop where
  /-- All that the work directory of a package has named is bound, and its file holds what was
      stored when it was archived. -/
  built : ∀ report, .ok report ∈ results → ∀ package ∈ report.built, ∃ work before built w,
    ⟨.build package (some work), before, built⟩ ∈ log ∧
    WorkDir.scan built work package = .ok w ∧
    ∀ i ∈ (WorkDir.named built work package).map Prod.fst, a.Bound disk i ∧
      ∃ bytes, a.Stored start log i bytes ∧ disk.read (a.storeFile i) = .ok bytes
  /-- So is all that a record depends on. -/
  deps : ∀ report, .ok report ∈ results → ∀ r ∈ report.records, ∀ dep ∈ r.deps, a.Bound disk dep
  /-- Where every import path has an archive of its own, these are the imports that the
      configuration beside the archive lists. -/
  exact : ∀ report, .ok report ∈ results → ∀ r ∈ report.records,
    ∃ package work before built archive, package ∈ report.built ∧
      ⟨.build package (some work), before, built⟩ ∈ log ∧
      (WorkDir.named built work package).lookup r.importPath = some archive ∧
      (WorkDir.Apart built work package → ∀ dep, dep ∈ r.deps ↔
        dep ∈ WorkDir.importsBeside built work archive)

theorem Kept.bound_of_mem {start : Disk} {known : Manifest} (h : a.Kept start known d)
    (hmem : importPath ∈ d.progress.archived) : a.Bound (a.diskOf d) importPath := by
  obtain ⟨m, hspells, hbinds⟩ := h.bound
  obtain ⟨bytes, hread⟩ := h.readable (List.ne_nil_of_mem hmem)
  refine ⟨m, ?_, by rw [hbinds, if_pos hmem]⟩
  rw [manifestAt, Disk.contentAt_of_read hread] at hspells
  rw [Manifest.load, hread]
  exact hspells.ofBytes

/-- What is finished and kept is closed. -/
theorem Kept.closed {start : Disk} {known : Manifest} (h : a.Kept start known d)
    {results : List (Except Host.Error Report)}
    (hdelivered : ∀ report, .ok report ∈ results →
      a.Delivered d.log d.progress.archived report) :
    a.Closed start d.log results (a.diskOf d) where
  built report hreport package hpackage := by
    obtain ⟨work, built, w, hfinished⟩ := (hdelivered report hreport).built package hpackage
    obtain ⟨before, hdone⟩ := hfinished.done
    refine ⟨work, before, built, w, hdone, hfinished.scanned, fun i hi => ?_⟩
    obtain ⟨archive, hentry⟩ := WorkDir.exists_archive hfinished.scanned hi
    have hmem := hfinished.archived _ hentry
    exact ⟨h.bound_of_mem hmem, h.held i hmem⟩
  deps report hreport r hr dep hdep := by
    obtain ⟨package, work, built, w, -, hfinished, hrecord, -⟩ :=
      (hdelivered report hreport).records r hr
    rw [hrecord] at hdep
    obtain ⟨archive, hentry⟩ := WorkDir.exists_archive hfinished.scanned
      (WorkDir.named_of_mem_depsOf hfinished.scanned hdep)
    exact h.bound_of_mem (hfinished.archived _ hentry)
  exact report hreport r hr := by
    obtain ⟨package, work, built, w, hpackage, hfinished, hrecord, archive, hentry⟩ :=
      (hdelivered report hreport).records r hr
    obtain ⟨before, hdone⟩ := hfinished.done
    refine ⟨package, work, before, built, archive, hpackage, hdone,
      (WorkDir.mem_archives_iff hfinished.scanned).1 hentry, fun hapart dep => ?_⟩
    rw [hrecord]
    exact WorkDir.mem_depsOf_iff_beside hfinished.scanned hapart hentry dep

/-- A builder who builds two packages that need a third, of which it makes another archive each
    time. -/
def sharedBuild : BuildRehearsal :=
  scripted (manifestDisk "site/prebuilt/manifest.txt" "old -> /old.a\n")
    [("a", [("work/b001/_pkg_.a", "A"), ("work/b001/importcfg", "packagefile x/b=lib/b.a\n"),
        ("lib/b.a", "B")], "work"),
      ("c", [("work/b001/_pkg_.a", "C"), ("work/b001/importcfg", "packagefile x/b=lib/b.a\n"),
        ("lib/b.a", "D")], "work")] []

/-- All runs go through, and a package is reported that alone was built. For an import path its work
    directory has named an archive, but it is not bound, or its file does not hold what the archive
    held. -/
def Misses (a : Archivist BuildRehearsal) (calls : List (List Target)) (world : BuildRehearsal)
    (package importPath : String) (bytes : ByteArray) : Prop :=
  ∃ results progress world' report work before built archive,
    a.runs calls ⟨[], []⟩ world = (results, progress, world') ∧
    (∀ result ∈ results, ∃ report, result = .ok report) ∧
    .ok report ∈ results ∧ package ∈ report.built ∧ asked (a.history calls world) = [package] ∧
    ⟨.build package (some work), before, built⟩ ∈ a.history calls world ∧
    (WorkDir.named built work package).lookup importPath = some archive ∧
    built.read archive = .ok bytes ∧
    (¬ a.Bound world'.disk importPath ∨ world'.disk.read (a.storeFile importPath) ≠ .ok bytes)

variable (hrooted : a.urlPrefix.toList.head? = some '/') (hline : '\n' ∉ a.urlPrefix.toList)

include hdisk hrooted hline in
/-- After any number of runs, what was reported is complete, as long as neither the builder nor the
    removal of its work directories touches it. The manifest may be absent before, or hold lines that
    are ended. -/
theorem runs_closed {calls : List (List Target)} {world world' : World} {progress : Progress}
    {results : List (Except Host.Error Report)} {known : Manifest}
    (hgrounded : (a.disk.get world).Grounded)
    (hspells : Manifest.Spells (a.manifestAt (a.disk.get world)) known)
    (hruns : a.runs calls ⟨[], []⟩ world = (results, progress, world'))
    (hnames : a.Nameable (a.history calls world)) (hquiet : a.Undisturbed (a.history calls world)) :
    a.Closed (a.disk.get world) (a.history calls world) results (a.disk.get world') := by
  have hrecorded := recorded_of_runs hruns
  have hkept := kept_of_runs hrooted hline hdisk hgrounded hspells hrecorded hquiet hnames
  have hdelivered := delivered_of_runs hdisk calls world
  rw [hrecorded] at hdelivered
  exact hkept.closed hdelivered

/-- A third package is stored as it was when it was archived. -/
theorem runs_closed_shared : ∃ report report' progress world,
    rehearsed.runs [[.package "a"], [.package "c"]] ⟨[], []⟩ sharedBuild =
      ([.ok report, .ok report'], progress, world) ∧
    report.built = ["a"] ∧ report'.built = ["c"] ∧
    world.disk.read "site/prebuilt/x/b.a" = .ok "B".toUTF8 ∧
    rehearsed.Nameable (rehearsed.history [[.package "a"], [.package "c"]] sharedBuild) ∧
    rehearsed.Undisturbed (rehearsed.history [[.package "a"], [.package "c"]] sharedBuild) ∧
    rehearsed.Closed sharedBuild.disk
      (rehearsed.history [[.package "a"], [.package "c"]] sharedBuild)
      [.ok report, .ok report'] world.disk := by
  have hlists : ((rehearsed.runs [[.package "a"], [.package "c"]] ⟨[], []⟩ sharedBuild).1.map
        (·.toOption.map (·.built)),
      ((rehearsed.runs [[.package "a"], [.package "c"]] ⟨[], []⟩ sharedBuild).2.2.disk.read
        "site/prebuilt/x/b.a").toOption.map ByteArray.data) =
      ([some ["a"], some ["c"]], some "B".toUTF8.data) := by decide +kernel
  obtain ⟨hpaths, hundisturbed⟩ :
      (∀ i ∈ leftPaths (rehearsed.history [[.package "a"], [.package "c"]] sharedBuild),
        IsImportPath i) ∧
      rehearsed.isUndisturbed []
        (rehearsed.history [[.package "a"], [.package "c"]] sharedBuild) = true := by
    decide +kernel
  have hquiet := undisturbed_of_isUndisturbed hundisturbed
  rcases hruns : rehearsed.runs [[.package "a"], [.package "c"]] ⟨[], []⟩ sharedBuild with
    ⟨results, progress, world⟩
  rw [hruns] at hlists
  obtain ⟨hreports, hread⟩ := Prod.mk.inj hlists
  obtain ⟨first, rest, rfl, hfirst, hrest⟩ := List.map_eq_cons_iff.1 hreports
  obtain ⟨second, rest, rfl, hsecond, hrest⟩ := List.map_eq_cons_iff.1 hrest
  obtain rfl := List.map_eq_nil_iff.1 hrest
  obtain ⟨report, hreport, hbuilt⟩ := Option.map_eq_some_iff.1 hfirst
  obtain ⟨report', hreport', hbuilt'⟩ := Option.map_eq_some_iff.1 hsecond
  obtain rfl := toOption_eq_some_iff.1 hreport
  obtain rfl := toOption_eq_some_iff.1 hreport'
  obtain ⟨content, hcontent, hsame⟩ := Option.map_eq_some_iff.1 hread
  have hspells : Manifest.Spells (rehearsed.manifestAt (rehearsed.disk.get sharedBuild))
      ⟨[("old", "/old.a")]⟩ := by
    refine ⟨"old -> /old.a\n", Text.ofUtf8?_eq_some_iff.2 (ByteArray.ext ?_), .inr ?_, ?_⟩ <;>
      decide +kernel
  have hnames : rehearsed.Nameable
      (rehearsed.history [[.package "a"], [.package "c"]] sharedBuild) :=
    rehearsed_placed.nameable hpaths
  have hheld : world.disk.read "site/prebuilt/x/b.a" = .ok "B".toUTF8 := by
    rw [← ByteArray.ext hsame]
    exact toOption_eq_some_iff.1 hcontent
  have hclosed := runs_closed (fun _ _ => rfl) (by decide) (by decide)
    (Disk.grounded_of_isDir (by decide +kernel)) hspells hruns hnames hquiet
  -- said of every rehearsal, this need not be computed
  have hstart : ∀ world, rehearsed.disk.get world = world.disk := fun _ => rfl
  rw [hstart] at hclosed
  exact ⟨report, report', progress, world, rfl, hbuilt, hbuilt', hheld, hnames, hquiet, hclosed⟩

/-- Whether a run misses an import path can be told from its record. -/
theorem misses_of_recorded {a : Archivist BuildRehearsal} {calls : List (List Target)}
    {world : BuildRehearsal} {package importPath : String} {bytes : ByteArray} (archive : String)
    (more : List (List String))
    (h : ((a.recorded.runs calls ⟨[], []⟩ (world, [])).1.map (·.toOption.map (·.built)) =
        some [package] :: more.map some ∧
      asked (a.recorded.runs calls ⟨[], []⟩ (world, [])).2.2.2 = [package]) ∧
      ((a.recorded.runs calls ⟨[], []⟩ (world, [])).2.2.2.any fun deed =>
        deed.cause = .build package (some "work") ∧
        (WorkDir.named deed.after "work" package).lookup importPath = some archive ∧
        (deed.after.read archive).toOption.map ByteArray.data = some bytes.data) = true ∧
      ((Manifest.load (a.recorded.runs calls ⟨[], []⟩ (world, [])).2.2.1.disk
          a.manifestPath).toOption.bind (·.get? importPath) ≠ some (a.storedPath importPath) ∨
        ((a.recorded.runs calls ⟨[], []⟩ (world, [])).2.2.1.disk.read
          (a.storeFile importPath)).toOption.map ByteArray.data ≠ some bytes.data)) :
    a.Misses calls world package importPath bytes := by
  rcases hresults : a.runs calls ⟨[], []⟩ world with ⟨results, progress, world'⟩
  rw [recorded_of_runs hresults] at h
  obtain ⟨⟨hbuilt, hasked⟩, hnamed, hmissed⟩ := h
  obtain ⟨⟨cause, before, built⟩, hdeed, hholds⟩ := List.any_eq_true.1 hnamed
  obtain ⟨rfl, hlookup, hread⟩ := of_decide_eq_true hholds
  obtain ⟨result, rest, rfl, hfirst, hrest⟩ := List.map_eq_cons_iff.1 hbuilt
  obtain ⟨report, hreport, hlists⟩ := Option.map_eq_some_iff.1 hfirst
  obtain ⟨content, hcontent, hsame⟩ := Option.map_eq_some_iff.1 hread
  have hok := toOption_eq_some_iff.1 hreport
  refine ⟨_, progress, world', report, "work", before, built, archive, hresults, ?_,
    hok ▸ List.mem_cons_self, hlists ▸ List.mem_singleton_self _, hasked, hdeed, hlookup,
    ByteArray.ext hsame ▸ toOption_eq_some_iff.1 hcontent, ?_⟩
  · intro result' hresult'
    rcases List.mem_cons.1 hresult' with rfl | hother
    · exact ⟨report, hok⟩
    · have hmem : result'.toOption.map (·.built) ∈ more.map some :=
        hrest ▸ List.mem_map_of_mem hother
      obtain ⟨list, -, hlist⟩ := List.mem_map.1 hmem
      obtain ⟨report', hreport', -⟩ := Option.map_eq_some_iff.1 hlist.symm
      exact ⟨report', toOption_eq_some_iff.1 hreport'⟩
  · refine hmissed.imp (fun hunbound hbound => hunbound ?_) fun hother hstored => hother ?_
    · obtain ⟨m, hload, hget⟩ := hbound
      have hload' : Manifest.load world'.disk a.manifestPath = .ok m := hload
      rw [hload']
      exact hget
    · dsimp only
      rw [hstored]
      rfl

/-- The store may be written to later, the manifest may have been in disorder, a name may be none,
    the prefix may have several lines, the archive may be a file of the store, and the manifest may
    be one. -/
theorem runs_closed_missed :
    rehearsed.Misses [[.package "a"], [.package "other"]]
      (scripted .empty [("a", [("work/b001/_pkg_.a", "A")], "work")]
        [("other", [("site/prebuilt/a.a", "X")])]) "a" "a" "A".toUTF8 ∧
    rehearsed.Misses [[.package "a"]]
      (scripted (manifestDisk "site/prebuilt/manifest.txt" "old -> /old.a")
        [("a", [("work/b001/_pkg_.a", "A")], "work")] []) "a" "a" "A".toUTF8 ∧
    rehearsed.Misses [[.package "a"]]
      (scripted (manifestDisk "site/prebuilt/manifest.txt" "old\n")
        [("a", [("work/b001/_pkg_.a", "A")], "work")] []) "a" "a" "A".toUTF8 ∧
    rehearsed.Misses [[.package ""]]
      (scripted .empty [("", [("work/b001/_pkg_.a", "A")], "work")] []) "" "" "A".toUTF8 ∧
    { rehearsed with urlPrefix := "/pre\nbuilt" }.Misses [[.package "a"]]
      (scripted .empty [("a", [("work/b001/_pkg_.a", "A")], "work")] []) "a" "a" "A".toUTF8 ∧
    rehearsed.Misses [[.package "a"]]
      (scripted .empty [("a", [("work/b001/_pkg_.a", "A"),
        ("work/b001/importcfg", "packagefile x=site/prebuilt/a.a\n"), ("site/prebuilt/a.a", "B")],
        "work")] [])
      "a" "x" "B".toUTF8 ∧
    rehearsed.Misses [[.package "a"]]
      (scripted .empty [("a", [("work/b001/_pkg_.a", "A"),
        ("work/b001/importcfg", "packagefile x=site/prebuilt/x.a\n"), ("site/prebuilt/x.a", "B")],
        "work")] [])
      "a" "x" "B".toUTF8 ∧
    { rehearsed with manifestPath := "site/prebuilt/a.a" }.Misses [[.package "a"]]
      (scripted .empty [("a", [("work/b001/_pkg_.a", "A")], "work")] []) "a" "a" "A".toUTF8 := by
  refine ⟨misses_of_recorded "work/b001/_pkg_.a" [[]] ?_,
    misses_of_recorded "work/b001/_pkg_.a" [] ?_, misses_of_recorded "work/b001/_pkg_.a" [] ?_,
    misses_of_recorded "work/b001/_pkg_.a" [] ?_, misses_of_recorded "work/b001/_pkg_.a" [] ?_,
    misses_of_recorded "site/prebuilt/a.a" [] ?_, misses_of_recorded "site/prebuilt/x.a" [] ?_,
    misses_of_recorded "work/b001/_pkg_.a" [] ?_⟩ <;> decide +kernel

end Archivist

end Workbench.Package
