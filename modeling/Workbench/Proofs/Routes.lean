import Workbench.Proofs.Shadowing

set_option autoImplicit false

/-! # The routes of a run

Each step of a run goes on one of few routes, whatever its world and its builder. They are read off
the steps here, with every way in which a step can end, so that what is to hold of a run need only be
looked at route by route. -/

namespace Workbench.Package

open Host (Job)

variable {World α : Type}

/-! ## What is noted -/

/-- The draft in which a package was reported that could not be built. -/
def Draft.failed (d : Draft World) (package output : String) : Draft World :=
  { d with report := { d.report with failed := d.report.failed ++ [(package, output)] } }

def Draft.skipped (d : Draft World) (package : String) : Draft World :=
  { d with report := { d.report with skipped := d.report.skipped ++ [package] } }

def Draft.built (d : Draft World) (package : String) : Draft World :=
  { d with report := { d.report with built := d.report.built ++ [package] } }

def Draft.tried (d : Draft World) (package : String) : Draft World :=
  { d with progress := { d.progress with tried := d.progress.tried ++ [package] } }

/-- The draft in which an archive is in the store and bound. -/
def Draft.filed (d : Draft World) (r : PackageRecord) : Draft World :=
  { d with
    progress := { d.progress with archived := d.progress.archived ++ [r.importPath] }
    report := { d.report with records := d.report.records ++ [r] } }

@[simp] theorem Draft.filed_records (d : Draft World) (r : PackageRecord) :
    (d.filed r).report.records = d.report.records ++ [r] := rfl

@[simp] theorem Draft.filed_archived (d : Draft World) (r : PackageRecord) :
    (d.filed r).progress.archived = d.progress.archived ++ [r.importPath] := rfl

namespace Archivist

/-- The record of an archive in a work directory. -/
def recordOf (a : Archivist World) (w : WorkDir) (importPath : String) : PackageRecord :=
  ⟨importPath, a.storedPath importPath, w.depsOf importPath⟩

/-- The job that removes a work directory, as far as that is possible. -/
def removal (work : String) : Job Unit := Job.attempt (Job.removeTree work)

/-- The routes of an archive. -/
inductive ArchiveRoute (a : Archivist World) (w : WorkDir) (importPath archive : String)
    (d : Draft World) : Except Host.Error Unit × Draft World → Prop where
  /-- It was archived before. -/
  | known : importPath ∈ d.progress.archived → ArchiveRoute a w importPath archive d (.ok (), d)
  /-- The directory for it could not be made. -/
  | unplaced {e : Host.Error} {d₁ : Draft World} : importPath ∉ d.progress.archived →
      Fails (a.onDisk (Job.makeParents (a.storeFile importPath))) d e d₁ →
      ArchiveRoute a w importPath archive d (.error e, d₁)
  /-- It could not be copied. -/
  | uncopied {e e' : Host.Error} {d₁ d₂ : Draft World} : importPath ∉ d.progress.archived →
      Yields (a.onDisk (Job.makeParents (a.storeFile importPath))) d () d₁ →
      Fails (a.onDisk (Job.copy archive (a.storeFile importPath))) d₁ e d₂ →
      ArchiveRoute a w importPath archive d (.error e', d₂)
  /-- It could not be bound. -/
  | unbound {e : Host.Error} {d₁ d₂ d₃ : Draft World} : importPath ∉ d.progress.archived →
      Yields (a.onDisk (Job.makeParents (a.storeFile importPath))) d () d₁ →
      Yields (a.onDisk (Job.copy archive (a.storeFile importPath))) d₁ () d₂ →
      Fails (a.onDisk (Manifest.append a.manifestPath (a.recordOf w importPath))) d₂ e d₃ →
      ArchiveRoute a w importPath archive d (.error e, d₃)
  | filed {d₁ d₂ d₃ : Draft World} : importPath ∉ d.progress.archived →
      Yields (a.onDisk (Job.makeParents (a.storeFile importPath))) d () d₁ →
      Yields (a.onDisk (Job.copy archive (a.storeFile importPath))) d₁ () d₂ →
      Yields (a.onDisk (Manifest.append a.manifestPath (a.recordOf w importPath))) d₂ () d₃ →
      ArchiveRoute a w importPath archive d (.ok (), d₃.filed (a.recordOf w importPath))

/-- The routes of a package that is built. -/
inductive BuildRoute (a : Archivist World) (package : String) (d : Draft World) :
    Except Host.Error Unit × Draft World → Prop where
  /-- The build has announced no work directory. -/
  | unannounced {answer : Except Host.Error Printout} {output : String} {d₁ : Draft World} :
      Yields (inWorld (a.builder.build · package)) d answer d₁ →
      answer.toOption.bind Printout.workDir? = none →
      BuildRoute a package d (.ok (), d₁.failed package output)
  /-- The build has failed. -/
  | unbuilt {printout : Printout} {work output : String} {d₁ d₂ : Draft World} :
      Yields (inWorld (a.builder.build · package)) d (.ok printout) d₁ →
      printout.success = false → printout.workDir? = some work →
      Yields (a.discard work) d₁ () d₂ →
      BuildRoute a package d (.ok (), d₂.failed package output)
  /-- What the build has left could not be archived. -/
  | unarchived {printout : Printout} {work : String} {e : Host.Error} {d₁ d₂ d₃ : Draft World} :
      Yields (inWorld (a.builder.build · package)) d (.ok printout) d₁ →
      printout.success = true → printout.workDir? = some work →
      Fails (a.archiveAll work package) d₁ e d₂ → Yields (a.discard work) d₂ () d₃ →
      BuildRoute a package d (.error e, d₃)
  | built {printout : Printout} {work : String} {d₁ d₂ d₃ : Draft World} :
      Yields (inWorld (a.builder.build · package)) d (.ok printout) d₁ →
      printout.success = true → printout.workDir? = some work →
      Yields (a.archiveAll work package) d₁ () d₂ → Yields (a.discard work) d₂ () d₃ →
      BuildRoute a package d (.ok (), d₃.built package)

/-- The routes of a package that is looked for. None of them ends a run. -/
inductive ReadyRoute (a : Archivist World) (package : String) (d : Draft World) :
    Except Host.Error (Option String) × Draft World → Prop where
  /-- It could not be found out whether it is there. -/
  | unknown {e : Host.Error} {output : String} {d₁ : Draft World} :
      Yields (inWorld (a.builder.isAvailable · package)) d (.error e) d₁ →
      ReadyRoute a package d (.ok (some output), d₁)
  | there {d₁ : Draft World} :
      Yields (inWorld (a.builder.isAvailable · package)) d (.ok true) d₁ →
      ReadyRoute a package d (.ok none, d₁)
  /-- It is there if it could be fetched. -/
  | fetched {answer : Except Host.Error Printout} {result : Option String} {d₁ d₂ : Draft World} :
      Yields (inWorld (a.builder.isAvailable · package)) d (.ok false) d₁ →
      Yields (inWorld (a.builder.fetch · package)) d₁ answer d₂ →
      result.isNone = answer.toOption.any (·.success) →
      ReadyRoute a package d (.ok result, d₂)

variable {a : Archivist World} {d d' : Draft World} {package : String}

/-! ## Jobs -/

theorem resultOf_onDisk (a : Archivist World) (job : Job α) (d : Draft World) :
    resultOf (a.onDisk job) d = ((resultOf job (a.disk.get d.world)).1,
      { d with world := a.disk.set d.world (resultOf job (a.disk.get d.world)).2 }) := by
  have hrun : a.disk.run job.run d.world = ((resultOf job (a.disk.get d.world)).1,
      a.disk.set d.world (resultOf job (a.disk.get d.world)).2) := rfl
  rw [onDisk, resultOf_bind, resultOf_inWorld, hrun, goOnWith]
  rcases (resultOf job (a.disk.get d.world)).1 with e | answer <;> rfl

/-- Saying why a job failed changes nothing else. -/
theorem resultOf_onDisk_rethrow (job : Job α) (f : Host.Error → Host.Error) (d : Draft World) :
    resultOf (a.onDisk (tryCatch job fun e => throw (f e))) d =
      ((resultOf (a.onDisk job) d).1.mapError f, (resultOf (a.onDisk job) d).2) := by
  rw [resultOf_onDisk, resultOf_onDisk, resultOf_tryCatch]
  rcases resultOf job (a.disk.get d.world) with ⟨e | answer, disk⟩ <;> rfl

/-- What is attempted never fails. -/
theorem exists_discard (a : Archivist World) (work : String) (d : Draft World) :
    ∃ d', Yields (a.discard work) d () d' := by
  refine ⟨(resultOf (a.discard work) d).2, Prod.ext ?_ rfl⟩
  rw [discard, resultOf_onDisk, Job.attempt, resultOf_tryCatch]
  rcases resultOf (Job.removeTree work) (a.disk.get d.world) with ⟨e | ⟨⟩, disk⟩ <;> rfl

/-- A work directory is removed after a step, whatever comes of it. -/
theorem exists_discarding (a : Archivist World) (work : String) (step : Step World Unit)
    (d : Draft World) : ∃ d', Yields (a.discard work) (resultOf step d).2 () d' ∧
      resultOf (a.discarding work step) d = ((resultOf step d).1, d') := by
  obtain ⟨d', hdiscard⟩ := a.exists_discard work (resultOf step d).2
  refine ⟨d', hdiscard, ?_⟩
  rw [discarding, resultOf_bind, resultOf_tryCatch]
  rcases hstep : resultOf step d with ⟨e | ⟨⟩, d₁⟩ <;> rw [hstep] at hdiscard
  · rw [recoverWith, resultOf_bind, show resultOf _ d₁ = (.ok (), d') from hdiscard]
    rfl
  · exact hdiscard

theorem exists_yields_inWorld (act : World → α × World) (d : Draft World) :
    ∃ answer d', Yields (inWorld act) d answer d' := ⟨_, _, resultOf_inWorld act d⟩

/-! ## Steps -/

theorem archiveRoute (a : Archivist World) (w : WorkDir) (importPath archive : String)
    (d : Draft World) :
    a.ArchiveRoute w importPath archive d (resultOf (a.archiveOne w importPath archive) d) := by
  have hget : resultOf (get : Step World _) d = (.ok d, d) := rfl
  rw [archiveOne, resultOf_bind, hget, goOnWith]
  split
  · next hknown => exact .known (List.contains_iff_mem.1 hknown)
  next hnew =>
  have hfresh : importPath ∉ d.progress.archived := fun hmem => hnew (List.contains_iff_mem.2 hmem)
  dsimp only
  rw [resultOf_bind]
  rcases hparents : resultOf (a.onDisk (Job.makeParents (a.storeFile importPath))) d with
    ⟨e | ⟨⟩, d₁⟩
  · exact .unplaced hfresh hparents
  rw [goOnWith, resultOf_bind, resultOf_onDisk_rethrow]
  rcases hcopy : resultOf (a.onDisk (Job.copy archive (a.storeFile importPath))) d₁ with
    ⟨e | ⟨⟩, d₂⟩
  · exact .uncopied hfresh hparents hcopy
  dsimp only [Except.mapError]
  rw [goOnWith, show (⟨importPath, a.storedPath importPath, w.depsOf importPath⟩ : PackageRecord) =
    a.recordOf w importPath from rfl, resultOf_bind]
  rcases happend : resultOf (a.onDisk (Manifest.append a.manifestPath (a.recordOf w importPath)))
    d₂ with ⟨e | ⟨⟩, d₃⟩
  · exact .unbound hfresh hparents hcopy happend
  · exact .filed hfresh hparents hcopy happend

theorem buildRoute (a : Archivist World) (package : String) (d : Draft World) :
    a.BuildRoute package d (resultOf (a.buildPackage package) d) := by
  obtain ⟨answer, d₁, hbuild⟩ := exists_yields_inWorld (a.builder.build · package) d
  rw [buildPackage, resultOf_bind, show resultOf _ d = (.ok answer, d₁) from hbuild, goOnWith]
  cases answer with
  | error e => exact .unannounced hbuild rfl
  | ok printout =>
    obtain ⟨success, stdout, stderr⟩ := printout
    dsimp only
    cases hwork : Printout.workDir? ⟨success, stdout, stderr⟩ with
    | none =>
      cases success with
      | false => exact .unannounced hbuild hwork
      | true => exact .unannounced hbuild hwork
    | some work =>
      cases success with
      | false =>
        obtain ⟨d₂, hdiscard⟩ := a.exists_discard work d₁
        dsimp only
        rw [resultOf_bind, show resultOf _ d₁ = (.ok (), d₂) from hdiscard, goOnWith]
        exact .unbuilt hbuild rfl hwork hdiscard
      | true =>
        obtain ⟨d₃, hdiscard, hdiscarding⟩ :=
          a.exists_discarding work (a.archiveAll work package) d₁
        dsimp only
        rw [resultOf_bind, hdiscarding]
        rcases harchive : resultOf (a.archiveAll work package) d₁ with ⟨e | ⟨⟩, d₂⟩ <;>
          rw [harchive] at hdiscard
        · exact .unarchived hbuild rfl hwork harchive hdiscard
        · exact .built hbuild rfl hwork harchive hdiscard

/-- A package that was tried before, or that is archived, is skipped. -/
theorem resultOf_process (a : Archivist World) (package : String) (d : Draft World) :
    resultOf (a.process package) d =
      if d.progress.tried.contains package || d.progress.archived.contains package then
        (.ok (), d.skipped package)
      else resultOf (a.buildPackage package) (d.tried package) := by
  have hget : resultOf (get : Step World _) d = (.ok d, d) := rfl
  rw [process, resultOf_bind, hget, goOnWith]
  dsimp only
  split <;> rfl

theorem readyRoute (a : Archivist World) (package : String) (d : Draft World) :
    a.ReadyRoute package d (resultOf (a.ensureAvailable package) d) := by
  obtain ⟨there, d₁, hthere⟩ := exists_yields_inWorld (a.builder.isAvailable · package) d
  rw [ensureAvailable, resultOf_bind, show resultOf _ d = (.ok there, d₁) from hthere, goOnWith]
  cases there with
  | error e => exact .unknown hthere
  | ok there =>
    cases there with
    | true => exact .there hthere
    | false =>
      obtain ⟨answer, d₂, hfetch⟩ := exists_yields_inWorld (a.builder.fetch · package) d₁
      dsimp only
      rw [resultOf_bind, show resultOf _ d₁ = (.ok answer, d₂) from hfetch, goOnWith]
      cases answer with
      | error e => exact .fetched hthere hfetch rfl
      | ok printout =>
        obtain ⟨success, stdout, stderr⟩ := printout
        cases success with
        | false => exact .fetched hthere hfetch rfl
        | true => exact .fetched hthere hfetch rfl

/-! ## Loops -/

theorem rounds_archiveAll {work : String} {u : Unit}
    (h : Yields (a.archiveAll work package) d u d') :
    ∃ w d₁, Yields (a.onDisk (Job.ask (WorkDir.scan · work package))) d w d₁ ∧
      Rounds (fun entry => a.archiveOne w entry.1 entry.2) w.archives d₁ d' := by
  obtain ⟨w, d₁, hscan, h⟩ := yields_bind_iff.1 h
  obtain ⟨⟨⟩, d₂, hloop, hend⟩ := yields_bind_iff.1 h
  obtain ⟨-, rfl⟩ := yields_pure_iff.1 hend
  exact ⟨w, d₁, hscan, rounds_of_forIn hloop⟩

theorem rounds_standard {u : Unit} (h : Yields (a.serve .standard) d u d') :
    ∃ packages d₁, Yields (inWorld a.builder.listStandard) d (.ok packages) d₁ ∧
      Rounds a.process (packages.filter isRoot) d₁ d' := by
  obtain ⟨answer, d₁, hlist, h⟩ := yields_bind_iff.1 h
  cases answer with
  | error e => exact absurd h not_yields_throw
  | ok packages =>
    obtain ⟨⟨⟩, d₂, hloop, hend⟩ := yields_bind_iff.1 h
    obtain ⟨-, rfl⟩ := yields_pure_iff.1 hend
    exact ⟨packages, d₁, hlist, rounds_of_forIn hloop⟩

/-- A package is processed if it is there or can be fetched, and reported otherwise. -/
theorem yields_package {u : Unit} (h : Yields (a.serve (.package package)) d u d') :
    ∃ result d₁, Yields (a.ensureAvailable package) d result d₁ ∧
      (result = none ∧ Yields (a.process package) d₁ () d' ∨
        ∃ output, result = some output ∧ d' = d₁.failed package output) := by
  obtain ⟨result, d₁, hready, h⟩ := yields_bind_iff.1 h
  refine ⟨result, d₁, hready, ?_⟩
  cases result with
  | none => exact .inl ⟨rfl, h⟩
  | some output => exact .inr ⟨output, rfl, (yields_modify_iff.1 h).symm⟩

theorem rounds_steps {targets : List Target} {u : Unit} (h : Yields (a.steps targets) d u d') :
    ∃ d₁, Yields (a.onDisk (Job.makeDirs a.storeDir)) d () d₁ ∧ Rounds a.serve targets d₁ d' := by
  obtain ⟨⟨⟩, d₁, hprepare, h⟩ := yields_bind_iff.1 h
  obtain ⟨⟨⟩, d₂, hloop, hend⟩ := yields_bind_iff.1 h
  obtain ⟨-, rfl⟩ := yields_pure_iff.1 hend
  exact ⟨d₁, hprepare, rounds_of_forIn hloop⟩

/-- A run that goes through has gone through all its steps. -/
theorem yields_of_run {targets : List Target} {progress progress' : Progress} {world world' : World}
    {report : Report} (h : a.run targets progress world = (.ok report, progress', world')) :
    Yields (a.steps targets) (.fresh world progress) () ⟨world', progress', report⟩ := by
  rw [run_fresh] at h
  rw [Yields]
  generalize resultOf (a.steps targets) (.fresh world progress) = o at h ⊢
  obtain ⟨e | ⟨⟩, d⟩ := o
  · cases h
  · cases h
    rfl

end Archivist

end Workbench.Package
