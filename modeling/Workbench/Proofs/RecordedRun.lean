import Workbench.Proofs.Routes

set_option autoImplicit false

/-! # Recorded runs

A run of an archivist can be recorded: beside its world it keeps what was done to the disk, by the
run itself and by the builder, each time with the disk before and after. The record does not change
the run. -/

namespace Workbench.Package

open Host (Disk Job)

variable {World α β : Type}

/-- What was at work on the disk. -/
inductive Cause where
  /-- The run itself. -/
  | job
  /-- The builder, looking for packages or fetching them. -/
  | call
  /-- The builder, building a package, with the work directory that it announced. -/
  | build (package : String) (work? : Option String)
  deriving DecidableEq

/-- Something that was done, with the disk before and after. -/
structure Deed where
  cause : Cause
  before : Disk
  after : Disk

/-- A world with the record of what was done to its disk. -/
abbrev Recorded (World : Type) := World × List Deed

namespace Archivist

/-- Do something in a world and record it. -/
def recording (a : Archivist World) (cause : α → Cause) (act : World → α × World)
    (w : Recorded World) : α × Recorded World :=
  let (result, world) := act w.1
  (result, world, w.2 ++ [⟨cause result, a.disk.get w.1, a.disk.get world⟩])

/-- The same archivist, who keeps a record. -/
def recorded (a : Archivist World) : Archivist (Recorded World) where
  builder :=
    { listStandard := a.recording (fun _ => .call) a.builder.listStandard
      isAvailable := fun w package =>
        a.recording (fun _ => .call) (a.builder.isAvailable · package) w
      fetch := fun w package => a.recording (fun _ => .call) (a.builder.fetch · package) w
      build := fun w package =>
        a.recording (fun result => .build package (result.toOption.bind Printout.workDir?))
          (a.builder.build · package) w }
  disk :=
    { get := fun w => a.disk.get w.1
      set := fun w d => (a.disk.set w.1 d, w.2 ++ [⟨.job, a.disk.get w.1, d⟩]) }
  storeDir := a.storeDir
  manifestPath := a.manifestPath
  urlPrefix := a.urlPrefix

/-- What is done in a run. -/
def deeds (a : Archivist World) (targets : List Target) (progress : Progress) (world : World) :
    List Deed :=
  (a.recorded.run targets progress (world, [])).2.2.2

end Archivist

/-! ## The record changes nothing -/

/-- A run under way, without its record. -/
def Draft.plain (d : Draft (Recorded World)) : Draft World := ⟨d.world.1, d.progress, d.report⟩

/-- Without its record, a recorded step does what the step does that is not recorded. -/
def Erases (recorded : Step (Recorded World) α) (step : Step World α) : Prop :=
  ∀ d, resultOf step d.plain = ((resultOf recorded d).1, (resultOf recorded d).2.plain)

namespace Archivist

/-- An archivist who keeps a record does what one does who keeps none. -/
theorem shadows_recorded (a : Archivist World) : Shadows Prod.fst a.recorded a where
  listStandard _ := rfl
  isAvailable _ _ := rfl
  fetch _ _ := rfl
  build _ _ := rfl
  get _ := rfl
  set _ _ := rfl
  storeDir := rfl
  manifestPath := rfl
  urlPrefix := rfl

variable {a : Archivist World}

theorem erases_archiveAll (work package : String) :
    Erases (a.recorded.archiveAll work package) (a.archiveAll work package) :=
  (shadows_recorded a).archiveAll work package

/-- A run that succeeds has a record. -/
theorem exists_recorded {targets : List Target} {progress progress' : Progress}
    {world world' : World} {report : Report}
    (h : a.run targets progress world = (.ok report, progress', world')) :
    Yields (a.recorded.steps targets) (.fresh (world, []) progress) ()
      ⟨(world', a.deeds targets progress world), progress', report⟩ := by
  have hrun := (shadows_recorded a).run targets progress (world, [])
  rw [h, run_fresh] at hrun
  rw [Yields, deeds, run_fresh]
  generalize resultOf (a.recorded.steps targets) (.fresh (world, []) progress) = o at hrun ⊢
  obtain ⟨e | ⟨⟩, d⟩ := o
  · cases hrun
  · cases hrun
    rfl

end Archivist

end Workbench.Package
