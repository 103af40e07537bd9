import Workbench.Proofs.Closure

set_option autoImplicit false

/-! # Packages that were built

A package counts as built when its build has gone through and has announced a work directory. Its
archive is looked for apart from that: in its place in the work directory, and in whatever the
configurations there list. So a package that was built is bound and stored if its work directory
names an archive for it, wherever that stands, and if not, then only on account of another package
or of an earlier day: no import path is bound that is named nowhere. -/

namespace Workbench.Package

open Host (Disk Job Location)

variable {World : Type}

namespace WorkDir

variable {d : Disk} {work package importPath : String}

/-- A work directory names an archive for an import path: for the package itself by having its
    archive in its place, for any import path by listing it in a configuration of one of the
    directories. -/
def Names (d : Disk) (work package importPath : String) : Prop :=
  (importPath = package ∧ (d.find (rootArchive work)).toOption.any (·.2.isFile) = true) ∨
    ∃ action ∈ actions d work, ∃ archive, (importPath, archive) ∈ namedIn d action

theorem names_iff :
    Names d work package importPath ↔ importPath ∈ (named d work package).map Prod.fst := by
  have hroot : importPath ∈ (if (d.find (rootArchive work)).toOption.any (·.2.isFile) then
      [(package, rootArchive work)] else []).map Prod.fst ↔
      importPath = package ∧ (d.find (rootArchive work)).toOption.any (·.2.isFile) = true := by
    split_ifs with hfile <;> simp [hfile]
  have hlisted : ∀ action, importPath ∈ (namedIn d action).map Prod.fst ↔
      ∃ archive, (importPath, archive) ∈ namedIn d action := by
    simp
  rw [named, List.map_append, List.mem_append, hroot, List.map_flatMap, List.mem_flatMap]
  simp only [hlisted, Names]

end WorkDir

/-! ## One build for each package -/

/-- Of deeds that are all of different packages, only one is of a given package. -/
theorem eq_of_asked? {log : List Deed} (h : (asked log).Nodup) {deed deed' : Deed}
    {package : String} (hdeed : deed ∈ log) (hdeed' : deed' ∈ log) (hasked : deed.asked? = some package)
    (hasked' : deed'.asked? = some package) : deed = deed' := by
  induction log with
  | nil => cases hdeed
  | cons first log ih =>
    have hmem : ∀ other ∈ log, other.asked? = some package → package ∈ asked log :=
      fun other hother hsome => List.mem_filterMap.2 ⟨other, hother, hsome⟩
    rw [asked, List.filterMap_cons] at h
    rcases List.mem_cons.1 hdeed with rfl | hold <;> rcases List.mem_cons.1 hdeed' with rfl | hold'
    · rfl
    · rw [hasked] at h
      exact absurd (hmem _ hold' hasked') (List.nodup_cons.1 h).1
    · rw [hasked'] at h
      exact absurd (hmem _ hold hasked) (List.nodup_cons.1 h).1
    · refine ih ?_ hold hold'
      cases hfirst : first.asked? with
      | none => rwa [hfirst] at h
      | some other =>
        rw [hfirst] at h
        exact (List.nodup_cons.1 h).2

namespace Archivist

variable {a : Archivist World} {start : Disk} {known : Manifest} {log : List Deed}
  {results : List (Except Host.Error Report)} {importPath : String}
  {d : Draft (Recorded World)}

variable (hdisk : ∀ w d, a.disk.get (a.disk.set w d) = d)

include hdisk in
/-- Where all runs go through, what is archived is what they have reported. -/
theorem archived_of_runs (calls : List (List Target)) (world : World) :
    (∀ result ∈ (a.recorded.runs calls ⟨[], []⟩ (world, [])).1, ∃ report, result = .ok report) →
      (a.recorded.runs calls ⟨[], []⟩ (world, [])).2.1.archived =
        reported (a.recorded.runs calls ⟨[], []⟩ (world, [])).1 := by
  refine keeps_of_runs (a := a.recorded)
    (fun results progress _ => (∀ result ∈ results, ∃ report, result = .ok report) →
      progress.archived = reported results)
    (fun results progress world targets hpast hok => ?_) (fun _ => rfl) calls
  obtain ⟨new, records, hbooks⟩ := (parts_booked a).steps hdisk targets (.fresh world progress)
  rw [run_fresh] at hok ⊢
  rcases hsteps : resultOf (a.recorded.steps targets) (.fresh world progress) with ⟨outcome, d⟩
  rw [hsteps] at hbooks hok
  have hbefore := hpast fun result hresult => hok result (List.mem_append_left _ hresult)
  obtain ⟨report, hlast⟩ := hok _ (List.mem_append_right _ (List.mem_singleton_self _))
  cases outcome with
  | error e => cases hlast
  | ok u =>
    have hrecords : d.report.records = records := hbooks.reported.trans (List.nil_append _)
    show d.progress.archived = reported (results ++ [.ok d.report])
    rw [reported, List.flatMap_append, List.flatMap_singleton, ← reported, ← hbefore,
      hbooks.archived, ← hrecords]
    rfl

/-! ## Coverage -/

/-- A package was reported as built whose work directory names an archive for the import path. -/
def Harvested (log : List Deed) (results : List (Except Host.Error Report)) (importPath : String) :
    Prop :=
  ∃ report package work before built, .ok report ∈ results ∧ package ∈ report.built ∧
    ⟨.build package (some work), before, built⟩ ∈ log ∧ WorkDir.Names built work package importPath

/-- What became of the packages that were reported as built in several runs. -/
structure Coverage (a : Archivist World) (start : Disk) (known : Manifest) (log : List Deed)
    (results : List (Except Host.Error Report)) (disk : Disk) : Prop where
  /-- Each has had one build, and if its work directory names an archive for the package, then this
      is bound, and its file holds what was stored when it was archived. -/
  built : ∀ report, .ok report ∈ results → ∀ package ∈ report.built, ∃ work before built,
    ⟨.build package (some work), before, built⟩ ∈ log ∧
    (∀ deed ∈ log, deed.asked? = some package →
      deed = ⟨.build package (some work), before, built⟩) ∧
    (WorkDir.Names built work package package → a.Bound disk package ∧
      ∃ bytes, a.Stored start log package bytes ∧ disk.read (a.storeFile package) = .ok bytes)
  /-- So it is for all that is harvested, -/
  harvested : ∀ i, Harvested log results i → a.Bound disk i ∧
    ∃ bytes, a.Stored start log i bytes ∧ disk.read (a.storeFile i) = .ok bytes
  /-- and if all runs go through, nothing else is bound but what was bound before. -/
  only : (∀ result ∈ results, ∃ report, result = .ok report) → ∀ i, a.Bound disk i →
    Harvested log results i ∨ known.get? i = some (a.storedPath i)

/-- A package that was reported is bound if every work directory of its builds names an archive for
    it. -/
theorem Coverage.bound_of_named {disk : Disk} (h : a.Coverage start known log results disk)
    {report : Report} {package : String} (hreport : .ok report ∈ results)
    (hpackage : package ∈ report.built)
    (hnames : ∀ deed ∈ log, ∀ work, deed.cause = .build package (some work) →
      WorkDir.Names deed.after work package package) : a.Bound disk package := by
  obtain ⟨work, before, built, hdeed, -, hcovered⟩ := h.built report hreport package hpackage
  exact (hcovered (hnames _ hdeed work rfl)).1

/-- What a manifest binds was archived, or was bound before. -/
theorem Kept.of_bound (h : a.Kept start known d) (hbound : a.Bound (a.diskOf d) importPath) :
    importPath ∈ d.progress.archived ∨ known.get? importPath = some (a.storedPath importPath) := by
  obtain ⟨m, hspells, hbinds⟩ := h.bound
  obtain ⟨m', hload, hget⟩ := hbound
  rw [Manifest.load] at hload
  cases hread : (a.diskOf d).read a.manifestPath with
  | error e =>
    -- without a file nothing is bound
    rw [hread] at hload
    dsimp only at hload
    split_ifs at hload
    cases hload
    cases hget
  | ok bytes =>
    rw [hread] at hload
    rw [manifestAt, Disk.contentAt_of_read hread] at hspells
    cases hload.symm.trans hspells.ofBytes
    rw [hbinds] at hget
    split_ifs at hget with hmem
    · exact .inl hmem
    · exact .inr hget

/-- What was harvested is archived. -/
theorem Delivered.archived_of_harvested {archived : List String} (honce : (asked log).Nodup)
    (hdelivered : ∀ report, .ok report ∈ results → a.Delivered log archived report)
    (h : Harvested log results importPath) : importPath ∈ archived := by
  obtain ⟨report, package, work, before, built, hreport, hpackage, hdeed, hnames⟩ := h
  obtain ⟨work', built', w, hfinished⟩ := (hdelivered report hreport).built package hpackage
  obtain ⟨before', hdone⟩ := hfinished.done
  cases eq_of_asked? honce hdeed hdone rfl rfl
  obtain ⟨archive, hentry⟩ := WorkDir.exists_archive hfinished.scanned (WorkDir.names_iff.1 hnames)
  exact hfinished.archived _ hentry

/-- What was reported was harvested. -/
theorem Delivered.harvested_of_reported {archived : List String}
    (hdelivered : ∀ report, .ok report ∈ results → a.Delivered log archived report)
    (h : importPath ∈ reported results) : Harvested log results importPath := by
  obtain ⟨result, hresult, hmem⟩ := List.mem_flatMap.1 h
  cases result with
  | error e => cases hmem
  | ok report =>
    obtain ⟨r, hr, rfl⟩ := List.mem_map.1 hmem
    obtain ⟨package, work, built, w, hpackage, hfinished, -, archive, hentry⟩ :=
      (hdelivered report hresult).records r hr
    obtain ⟨before, hdone⟩ := hfinished.done
    have hlookup := (WorkDir.mem_archives_iff hfinished.scanned).1 hentry
    refine ⟨report, package, work, before, built, hresult, hpackage, hdone, WorkDir.names_iff.2 ?_⟩
    obtain ⟨front, back, hnamed, -⟩ := List.lookup_eq_some_iff.1 hlookup
    rw [hnamed, List.map_append]
    exact List.mem_append_right _ List.mem_cons_self

variable (hrooted : a.urlPrefix.toList.head? = some '/') (hline : '\n' ∉ a.urlPrefix.toList)

include hdisk hrooted hline in
/-- After any number of runs, each package that was reported as built is bound and stored if its
    work directory names an archive for it, as long as neither the builder nor the removal of its
    work directories touches the store. -/
theorem built_covered {calls : List (List Target)} {world world' : World} {progress : Progress}
    (hgrounded : (a.disk.get world).Grounded)
    (hspells : Manifest.Spells (a.manifestAt (a.disk.get world)) known)
    (hruns : a.runs calls ⟨[], []⟩ world = (results, progress, world'))
    (hnames : a.Nameable (a.history calls world)) (hquiet : a.Undisturbed (a.history calls world)) :
    a.Coverage (a.disk.get world) known (a.history calls world) results (a.disk.get world') := by
  have hrecorded := recorded_of_runs hruns
  have hkept := kept_of_runs hrooted hline hdisk hgrounded hspells hrecorded hquiet hnames
  have hdelivered := delivered_of_runs hdisk calls world
  have hremembers := remembers_of_runs hdisk calls world
  have harchived := archived_of_runs hdisk calls world
  rw [hrecorded] at hdelivered hremembers harchived
  have honce : (asked (a.history calls world)).Nodup := hremembers.tried ▸ hremembers.triedOnce
  have hharvested : ∀ i, Harvested (a.history calls world) results i →
      a.Bound (a.disk.get world') i ∧ ∃ bytes, a.Stored (a.disk.get world) (a.history calls world) i
        bytes ∧ (a.disk.get world').read (a.storeFile i) = .ok bytes := by
    intro i hi
    have hmem := Delivered.archived_of_harvested honce hdelivered hi
    exact ⟨hkept.bound_of_mem hmem, hkept.held i hmem⟩
  refine ⟨fun report hreport package hpackage => ?_, hharvested, fun hok i hbound => ?_⟩
  · obtain ⟨work, built, w, hfinished⟩ := (hdelivered report hreport).built package hpackage
    obtain ⟨before, hdone⟩ := hfinished.done
    refine ⟨work, before, built, hdone, fun deed hdeed hasked => ?_, fun hnamed => ?_⟩
    · exact eq_of_asked? honce hdeed hdone hasked rfl
    · refine hharvested package ?_
      exact ⟨report, package, work, before, built, hreport, hpackage, hdone, hnamed⟩
  · refine (hkept.of_bound hbound).imp_left fun hmem => ?_
    exact Delivered.harvested_of_reported hdelivered ((harchived hok) ▸ hmem)

/-! ## Layouts -/

/-- A build that leaves the archive of its package elsewhere and lists it for the link of another
    directory. -/
def listedBuild : BuildRehearsal :=
  scripted .empty
    [("a", [("work/b007/importcfg.link", "packagefile a=lib/a.a\n"), ("lib/a.a", "A")], "work")] []

/-- The package is bound, and its archive is in the store. -/
theorem built_covered_listed : ∃ report progress world,
    rehearsed.runs [[.package "a"]] ⟨[], []⟩ listedBuild = ([.ok report], progress, world) ∧
    report.built = ["a"] ∧
    rehearsed.Coverage listedBuild.disk .empty (rehearsed.history [[.package "a"]] listedBuild)
      [.ok report] world.disk ∧
    rehearsed.Bound world.disk "a" ∧ world.disk.read "site/prebuilt/a.a" = .ok "A".toUTF8 := by
  have hlists : ((rehearsed.runs [[.package "a"]] ⟨[], []⟩ listedBuild).1.map
        (·.toOption.map (·.built)),
      ((rehearsed.runs [[.package "a"]] ⟨[], []⟩ listedBuild).2.2.disk.read
        "site/prebuilt/a.a").toOption.map ByteArray.data) =
      ([some ["a"]], some "A".toUTF8.data) := by
    decide +kernel
  obtain ⟨hpaths, hundisturbed⟩ :
      (∀ i ∈ leftPaths (rehearsed.history [[.package "a"]] listedBuild), IsImportPath i) ∧
      rehearsed.isUndisturbed [] (rehearsed.history [[.package "a"]] listedBuild) = true := by
    decide +kernel
  have hlisted : ∀ deed ∈ rehearsed.history [[.package "a"]] listedBuild,
      deed.asked? = some "a" → deed.cause = .build "a" (some "work") ∧
        "a" ∈ (WorkDir.named deed.after "work" "a").map Prod.fst := by
    decide +kernel
  have hspells : Manifest.Spells (rehearsed.manifestAt (rehearsed.disk.get listedBuild))
      .empty := by
    refine ⟨"", Text.ofUtf8?_eq_some_iff.2 (ByteArray.ext ?_), .inl ?_, ?_⟩ <;> decide +kernel
  have hnames : rehearsed.Nameable (rehearsed.history [[.package "a"]] listedBuild) :=
    rehearsed_placed.nameable hpaths
  rcases hruns : rehearsed.runs [[.package "a"]] ⟨[], []⟩ listedBuild with
    ⟨results, progress, world⟩
  rw [hruns] at hlists
  obtain ⟨hreports, hread⟩ := Prod.mk.inj hlists
  obtain ⟨first, rest, rfl, hfirst, hrest⟩ := List.map_eq_cons_iff.1 hreports
  obtain rfl := List.map_eq_nil_iff.1 hrest
  obtain ⟨report, hreport, hbuilt⟩ := Option.map_eq_some_iff.1 hfirst
  obtain rfl := toOption_eq_some_iff.1 hreport
  obtain ⟨content, hcontent, hsame⟩ := Option.map_eq_some_iff.1 hread
  have hheld : world.disk.read "site/prebuilt/a.a" = .ok "A".toUTF8 := by
    rw [← ByteArray.ext hsame]
    exact toOption_eq_some_iff.1 hcontent
  have hcoverage := built_covered (fun _ _ => rfl) (by decide) (by decide)
    (Disk.grounded_of_isDir (by decide +kernel)) hspells hruns hnames
    (undisturbed_of_isUndisturbed hundisturbed)
  -- said of every rehearsal, this need not be computed
  have hstart : ∀ world, rehearsed.disk.get world = world.disk := fun _ => rfl
  rw [hstart] at hcoverage
  have hbound : rehearsed.Bound world.disk "a" := by
    refine hcoverage.bound_of_named List.mem_cons_self ?_ ?_
    · rw [hbuilt]
      exact List.mem_cons_self
    · intro deed hdeed work hcause
      obtain ⟨hwork, hnamed⟩ := hlisted deed hdeed (by rw [Deed.asked?, hcause])
      cases hcause.symm.trans hwork
      exact WorkDir.names_iff.2 hnamed
  exact ⟨report, progress, world, rfl, hbuilt, hcoverage, hbound, hheld⟩

/-- A call has gone through that reports a package as built, but this is not bound, or its file does
    not hold the bytes. -/
def Uncovered (a : Archivist BuildRehearsal) (targets : List Target) (world : BuildRehearsal)
    (package : String) (bytes : ByteArray) : Prop :=
  ∃ report progress world', a.run targets ⟨[], []⟩ world = (.ok report, progress, world') ∧
    package ∈ report.built ∧
    ¬ (a.Bound world'.disk package ∧ world'.disk.read (a.storeFile package) = .ok bytes)

theorem uncovered_of_run {a : Archivist BuildRehearsal} {targets : List Target}
    {world : BuildRehearsal} {package : String} {bytes : ByteArray}
    (h : (a.run targets ⟨[], []⟩ world).1.toOption.map (·.built) = some [package] ∧
      ((Manifest.load (a.run targets ⟨[], []⟩ world).2.2.disk a.manifestPath).toOption.bind
          (·.get? package) ≠ some (a.storedPath package) ∨
        ((a.run targets ⟨[], []⟩ world).2.2.disk.read (a.storeFile package)).toOption.map
          ByteArray.data ≠ some bytes.data)) :
    a.Uncovered targets world package bytes := by
  rcases hrun : a.run targets ⟨[], []⟩ world with ⟨result, progress, world'⟩
  rw [hrun] at h
  obtain ⟨hbuilt, hmissed⟩ := h
  obtain ⟨report, hreport, hlists⟩ := Option.map_eq_some_iff.1 hbuilt
  obtain rfl := toOption_eq_some_iff.1 hreport
  refine ⟨report, progress, world', hrun, hlists ▸ List.mem_singleton_self _, ?_⟩
  rintro ⟨⟨m, hload, hget⟩, hread⟩
  rcases hmissed with hunbound | hother
  · have hload' : Manifest.load world'.disk a.manifestPath = .ok m := hload
    exact hunbound (by rw [hload']; exact hget)
  · refine hother ?_
    dsimp only
    rw [hread]
    rfl

/-- A builder who announces the store as its work directory, which is removed. -/
def swallowedStore : BuildRehearsal :=
  scripted .empty [("a", [("site/prebuilt/b001/_pkg_.a", "A")], "site/prebuilt")] []

/-- The work directory may name no archive for the package. The store may be written to or removed
    later, the manifest may have been in disorder, a name may be none or have a blank in it, the
    prefix may have several lines, and the manifest, or the archive of another import path, may be
    put where the archive of the package is. -/
theorem built_uncovered :
    (∀ bytes, rehearsed.Uncovered [.package "a"]
      (scripted .empty [("a", [("work/b001/vet.cfg", "")], "work")] []) "a" bytes) ∧
    rehearsed.Uncovered [.package "a", .package "other"]
      (scripted .empty [("a", [("work/b001/_pkg_.a", "A")], "work")]
        [("other", [("site/prebuilt/a.a", "X")])]) "a" "A".toUTF8 ∧
    rehearsed.Uncovered [.package "a"] swallowedStore "a" "A".toUTF8 ∧
    rehearsed.Uncovered [.package "a"]
      (scripted (manifestDisk "site/prebuilt/manifest.txt" "old -> /old.a")
        [("a", [("work/b001/_pkg_.a", "A")], "work")] []) "a" "A".toUTF8 ∧
    rehearsed.Uncovered [.package "a"]
      (scripted (manifestDisk "site/prebuilt/manifest.txt" "old\n")
        [("a", [("work/b001/_pkg_.a", "A")], "work")] []) "a" "A".toUTF8 ∧
    rehearsed.Uncovered [.package ""]
      (scripted .empty [("", [("work/b001/_pkg_.a", "A")], "work")] []) "" "A".toUTF8 ∧
    rehearsed.Uncovered [.package " a"]
      (scripted .empty [(" a", [("work/b001/_pkg_.a", "A")], "work")] []) " a" "A".toUTF8 ∧
    { rehearsed with urlPrefix := "/pre\nbuilt" }.Uncovered [.package "a"]
      (scripted .empty [("a", [("work/b001/_pkg_.a", "A")], "work")] []) "a" "A".toUTF8 ∧
    { rehearsed with manifestPath := "site/prebuilt/a.a" }.Uncovered [.package "a"]
      (scripted .empty [("a", [("work/b001/_pkg_.a", "A")], "work")] []) "a" "A".toUTF8 ∧
    rehearsed.Uncovered [.package "a"]
      (scripted .empty [("a", [("work/b001/_pkg_.a", "A"),
        ("work/b001/importcfg", "packagefile ./a=lib/x.a\n"), ("lib/x.a", "X")], "work")] [])
      "a" "A".toUTF8 := by
  refine ⟨fun bytes => uncovered_of_run (.imp_right .inl ?_), uncovered_of_run ?_,
    uncovered_of_run ?_, uncovered_of_run ?_, uncovered_of_run ?_, uncovered_of_run ?_,
    uncovered_of_run ?_, uncovered_of_run ?_, uncovered_of_run ?_, uncovered_of_run ?_⟩ <;>
    decide +kernel

end Archivist

end Workbench.Package
