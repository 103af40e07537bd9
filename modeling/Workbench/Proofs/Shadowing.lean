import Workbench.Package.Archive
import Workbench.Proofs.Yields

set_option autoImplicit false

/-! # Archivists who shadow one another

A run does not look into its world except by the builder and the disk. So where one world is mapped
to another, and the builder and the disk do in the one what they do in the other, the whole run does.
A world that keeps something beside another one, such as a record, is mapped to it by forgetting
that. -/

namespace Workbench.Package

open Host (Job)

variable {World Shadow α β : Type}

/-- A run under way, in another world. -/
def Draft.through (f : World → Shadow) (d : Draft World) : Draft Shadow :=
  ⟨f d.world, d.progress, d.report⟩

/-- A run that has not begun. -/
def Draft.fresh (world : World) (progress : Progress) : Draft World :=
  ⟨world, progress, ⟨[], [], [], []⟩⟩

/-- Through a map of worlds, a step does what another step does. -/
def Projects (f : World → Shadow) (step : Step World α) (shadow : Step Shadow α) : Prop :=
  ∀ d, resultOf shadow (d.through f) = ((resultOf step d).1, (resultOf step d).2.through f)

section Steps

variable {f : World → Shadow}

theorem projects_pure (a : α) : Projects f (pure a : Step World α) (pure a) := fun _ => rfl

theorem projects_throw (e : Host.Error) : Projects f (throw e : Step World α) (throw e) :=
  fun _ => rfl

theorem projects_modify {g : Draft World → Draft World} {g' : Draft Shadow → Draft Shadow}
    (h : ∀ d, g' (d.through f) = (g d).through f) : Projects f (modify g) (modify g') :=
  fun d => congrArg (Except.ok PUnit.unit, ·) (h d)

theorem projects_note (change : Report → Report) :
    Projects f (Archivist.note change : Step World Unit) (Archivist.note change) :=
  projects_modify fun _ => rfl

theorem Projects.bind {step : Step World α} {shadow : Step Shadow α} {rest : α → Step World β}
    {rest' : α → Step Shadow β} (h : Projects f step shadow)
    (hrest : ∀ a, Projects f (rest a) (rest' a)) :
    Projects f (step >>= rest) (shadow >>= rest') := by
  intro d
  rw [resultOf_bind, resultOf_bind, h d]
  rcases resultOf step d with ⟨e | a, d'⟩
  · rfl
  · exact hrest a d'

/-- A step may look at the draft, but not at what the map forgets. -/
theorem projects_bind_get {rest : Draft World → Step World α} {rest' : Draft Shadow → Step Shadow α}
    (h : ∀ d, Projects f (rest d) (rest' (d.through f))) :
    Projects f (get >>= rest) (get >>= rest') := by
  intro d
  rw [resultOf_bind, resultOf_bind]
  exact h d d

theorem Projects.tryCatch {step : Step World α} {shadow : Step Shadow α}
    {handler : Host.Error → Step World α} {handler' : Host.Error → Step Shadow α}
    (h : Projects f step shadow) (hhandler : ∀ e, Projects f (handler e) (handler' e)) :
    Projects f (tryCatch step handler) (tryCatch shadow handler') := by
  intro d
  rw [resultOf_tryCatch, resultOf_tryCatch, h d]
  rcases resultOf step d with ⟨e | a, d'⟩
  · exact hhandler e d'
  · rfl

/-- A loop projects where its rounds do. -/
theorem projects_forIn {body : α → PUnit → Step World (ForInStep PUnit)}
    {body' : α → PUnit → Step Shadow (ForInStep PUnit)}
    (h : ∀ a u, Projects f (body a u) (body' a u)) (list : List α) (u : PUnit) :
    Projects f (forIn list u body >>= fun _ => pure ())
      (forIn list u body' >>= fun _ => pure ()) := by
  have hloop : Projects f (forIn list u body) (forIn list u body') := by
    induction list generalizing u with
    | nil => exact projects_pure u
    | cons a list ih =>
      rw [List.forIn_cons, List.forIn_cons]
      refine (h a u).bind fun next => ?_
      cases next with
      | done u => exact projects_pure u
      | yield u => exact ih u
  exact hloop.bind fun _ => projects_pure ()

end Steps

namespace Archivist

/-- A run is what comes of its steps from a draft that has not begun. -/
theorem run_fresh (a : Archivist World) (targets : List Target) (progress : Progress)
    (world : World) : a.run targets progress world =
      ((resultOf (a.steps targets) (.fresh world progress)).1.map fun _ =>
          (resultOf (a.steps targets) (.fresh world progress)).2.report,
        (resultOf (a.steps targets) (.fresh world progress)).2.progress,
        (resultOf (a.steps targets) (.fresh world progress)).2.world) := rfl

theorem resultOf_inWorld (act : World → α × World) (d : Draft World) :
    resultOf (inWorld act) d = (.ok (act d.world).1, { d with world := (act d.world).2 }) := rfl

theorem projects_inWorld {f : World → Shadow} {act : World → α × World}
    {act' : Shadow → α × Shadow} (h : ∀ w, act' (f w) = ((act w).1, f (act w).2)) :
    Projects f (inWorld act) (inWorld act') := by
  intro d
  rw [resultOf_inWorld, resultOf_inWorld, Draft.through, h d.world]
  rfl

/-- The builder and the disk of an archivist do what those of another one do, and both put their
    files in the same places. -/
structure Shadows (f : World → Shadow) (a : Archivist World) (b : Archivist Shadow) : Prop where
  listStandard : ∀ w, b.builder.listStandard (f w) =
    ((a.builder.listStandard w).1, f (a.builder.listStandard w).2)
  isAvailable : ∀ w package, b.builder.isAvailable (f w) package =
    ((a.builder.isAvailable w package).1, f (a.builder.isAvailable w package).2)
  fetch : ∀ w package, b.builder.fetch (f w) package =
    ((a.builder.fetch w package).1, f (a.builder.fetch w package).2)
  build : ∀ w package, b.builder.build (f w) package =
    ((a.builder.build w package).1, f (a.builder.build w package).2)
  get : ∀ w, b.disk.get (f w) = a.disk.get w
  set : ∀ w d, b.disk.set (f w) d = f (a.disk.set w d)
  storeDir : b.storeDir = a.storeDir
  manifestPath : b.manifestPath = a.manifestPath
  urlPrefix : b.urlPrefix = a.urlPrefix

namespace Shadows

variable {f : World → Shadow} {a : Archivist World} {b : Archivist Shadow} (h : Shadows f a b)

include h

theorem onDisk (job : Job α) : Projects f (a.onDisk job) (b.onDisk job) := by
  have hjob : ∀ w, b.disk.run job.run (f w) =
      ((a.disk.run job.run w).1, f (a.disk.run job.run w).2) := by
    intro w
    show ((job.run (b.disk.get (f w))).1, b.disk.set (f w) (job.run (b.disk.get (f w))).2) = _
    rw [h.get, h.set]
    rfl
  refine (projects_inWorld hjob).bind fun result => ?_
  cases result with
  | ok answer => exact projects_pure answer
  | error e => exact projects_throw e

theorem archiveOne (w : WorkDir) (importPath archive : String) :
    Projects f (a.archiveOne w importPath archive) (b.archiveOne w importPath archive) := by
  have hfile : b.storeFile importPath = a.storeFile importPath := by
    rw [storeFile, h.storeDir, storeFile]
  have hstored : b.storedPath importPath = a.storedPath importPath := by
    rw [storedPath, h.urlPrefix, storedPath]
  refine projects_bind_get fun d => ?_
  dsimp only [Draft.through]
  rw [hfile, hstored, h.manifestPath]
  split
  · exact projects_pure _
  · exact (h.onDisk _).bind fun _ => (h.onDisk _).bind fun _ => (h.onDisk _).bind fun _ =>
      projects_modify fun d => rfl

theorem archiveAll (work package : String) :
    Projects f (a.archiveAll work package) (b.archiveAll work package) := by
  refine (h.onDisk _).bind fun w => projects_forIn (fun entry _ => ?_) _ _
  exact (h.archiveOne w entry.1 entry.2).bind fun _ => projects_pure _

theorem discarding (work : String) {step : Step World Unit} {shadow : Step Shadow Unit}
    (hstep : Projects f step shadow) :
    Projects f (a.discarding work step) (b.discarding work shadow) :=
  (hstep.tryCatch fun e => (h.onDisk _).bind fun _ => projects_throw e).bind fun _ => h.onDisk _

theorem buildPackage (package : String) :
    Projects f (a.buildPackage package) (b.buildPackage package) := by
  refine (projects_inWorld fun w => h.build w package).bind fun result => ?_
  cases result with
  | error e => exact projects_note _
  | ok printout =>
    obtain ⟨success, stdout, stderr⟩ := printout
    cases success with
    | false =>
      dsimp only
      cases Printout.workDir? ⟨false, stdout, stderr⟩ with
      | none => exact projects_note _
      | some work => exact (h.onDisk _).bind fun _ => projects_note _
    | true =>
      dsimp only
      cases Printout.workDir? ⟨true, stdout, stderr⟩ with
      | none => exact projects_note _
      | some work =>
        exact (h.discarding work (h.archiveAll work package)).bind fun _ => projects_note _

theorem process (package : String) : Projects f (a.process package) (b.process package) := by
  refine projects_bind_get fun d => ?_
  dsimp only [Draft.through]
  split
  · exact projects_note _
  · have htried : Projects f
        (modify fun d => { d with
          progress := { d.progress with tried := d.progress.tried ++ [package] } })
        (modify fun d => { d with
          progress := { d.progress with tried := d.progress.tried ++ [package] } }) :=
      projects_modify fun _ => rfl
    exact htried.bind fun _ => h.buildPackage package

theorem ensureAvailable (package : String) :
    Projects f (a.ensureAvailable package) (b.ensureAvailable package) := by
  refine (projects_inWorld fun w => h.isAvailable w package).bind fun result => ?_
  cases result with
  | error e => exact projects_pure _
  | ok there =>
    cases there with
    | true => exact projects_pure _
    | false =>
      refine (projects_inWorld fun w => h.fetch w package).bind fun fetched => ?_
      cases fetched with
      | error e => exact projects_pure _
      | ok printout => exact projects_pure _

theorem serve (target : Target) : Projects f (a.serve target) (b.serve target) := by
  cases target with
  | standard =>
    refine (projects_inWorld h.listStandard).bind fun result => ?_
    cases result with
    | error e => exact projects_throw e
    | ok packages =>
      refine projects_forIn (fun package _ => ?_) _ _
      exact (h.process package).bind fun _ => projects_pure _
  | package name =>
    refine (h.ensureAvailable name).bind fun result => ?_
    cases result with
    | none => exact h.process name
    | some output => exact projects_note _

theorem steps (targets : List Target) : Projects f (a.steps targets) (b.steps targets) := by
  unfold Archivist.steps
  rw [h.storeDir]
  refine (h.onDisk _).bind fun _ => projects_forIn (fun target _ => ?_) _ _
  exact (h.serve target).bind fun _ => projects_pure _

/-- A run does through the map of worlds what the other archivist's run does. -/
theorem run (targets : List Target) (progress : Progress) (world : World) :
    b.run targets progress (f world) =
      ((a.run targets progress world).1, (a.run targets progress world).2.1,
        f (a.run targets progress world).2.2) := by
  have hsteps := h.steps targets (.fresh world progress)
  have hfresh : Draft.through f (.fresh world progress) = .fresh (f world) progress := rfl
  rw [hfresh] at hsteps
  rw [run_fresh, run_fresh, hsteps]
  rfl

end Shadows

end Archivist

end Workbench.Package
