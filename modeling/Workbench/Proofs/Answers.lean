import Workbench.Proofs.DiskJobs
import Workbench.Proofs.Routes

set_option autoImplicit false

/-! # What a run makes of the answers of its builder

A builder may answer differently from one time to the next, as its world changes. Where all that a
run has heard of it stands in one table, whose entries depend on the package alone, the run has gone
as the table and the targets say: which packages were tried and which import paths are archived in
the end, and in which order, is planned from these, with no world.

What is heard is kept beside the world, by an archivist who otherwise does the same. -/

namespace Workbench.Package

open Host (Disk Job)

variable {World α β : Type}

/-- What is heard of a builder. -/
inductive Heard where
  | listed (packages : List String)
  /-- Whether a package is there or was fetched. -/
  | readied (package : String) (ready : Bool)
  /-- The import paths that a build has left for archiving, in order; none if it has failed. -/
  | built (package : String) (named : List String)

/-- A world with what was heard in it. -/
abbrev Attentive (World : Type) := World × List Heard

/-- Answers that depend on the package alone. -/
structure Answers where
  standard : List String
  ready : String → Bool
  named : String → List String

/-- What was heard is what the table says. -/
def Answers.Gives (answers : Answers) : Heard → Prop
  | .listed packages => packages = answers.standard
  | .readied package ready => ready = answers.ready package
  | .built package named => named = answers.named package

/-- The import paths that a build has left for archiving. -/
def leftBy (disk : Disk) (package : String) : Except Host.Error Printout → List String
  | .error _ => []
  | .ok printout =>
    match printout.success, printout.workDir? with
    | true, some work =>
      ((WorkDir.scan disk work package).toOption.map fun w => w.archives.map Prod.fst).getD []
    | _, _ => []

/-- A package that is not there is fetched before anything can be said of it. -/
def heardAvailable (package : String) : Except Host.Error Bool → List Heard
  | .ok true => [.readied package true]
  | .ok false => []
  | .error _ => [.readied package false]

/-- A package that was fetched is there. -/
def heardFetched (package : String) (answer : Except Host.Error Printout) : List Heard :=
  [.readied package (answer.toOption.any (·.success))]

namespace Archivist

/-- Do something in a world and keep what is heard. -/
def hearing (heard : α → World → List Heard) (act : World → α × World) (w : Attentive World) :
    α × Attentive World :=
  let (result, world) := act w.1
  (result, world, w.2 ++ heard result world)

/-- The same archivist, who keeps what is heard. -/
def attentive (a : Archivist World) : Archivist (Attentive World) where
  builder :=
    { listStandard :=
        hearing (fun answer _ => answer.toOption.toList.map Heard.listed) a.builder.listStandard
      isAvailable := fun w package =>
        hearing (fun answer _ => heardAvailable package answer) (a.builder.isAvailable · package) w
      fetch := fun w package =>
        hearing (fun answer _ => heardFetched package answer) (a.builder.fetch · package) w
      build := fun w package =>
        hearing (fun answer world => [.built package (leftBy (a.disk.get world) package answer)])
          (a.builder.build · package) w }
  disk := ⟨fun w => a.disk.get w.1, fun w d => (a.disk.set w.1 d, w.2)⟩
  storeDir := a.storeDir
  manifestPath := a.manifestPath
  urlPrefix := a.urlPrefix

/-- An archivist who listens does what one does who does not. -/
theorem shadows_attentive (a : Archivist World) : Shadows Prod.fst a.attentive a where
  listStandard _ := rfl
  isAvailable _ _ := rfl
  fetch _ _ := rfl
  build _ _ := rfl
  get _ := rfl
  set _ _ := rfl
  storeDir := rfl
  manifestPath := rfl
  urlPrefix := rfl

end Archivist

/-! ## Plans -/

/-- Note an import path, unless it is noted. -/
def noteNew (known : List String) (importPath : String) : List String :=
  if known.contains importPath then known else known ++ [importPath]

namespace Answers

/-- What is known when a package has been seen to. -/
def process (answers : Answers) (known : Progress) (package : String) : Progress :=
  if known.tried.contains package || known.archived.contains package then known
  else ⟨known.tried ++ [package], (answers.named package).foldl noteNew known.archived⟩

/-- What is known when a target has been served. -/
def serve (answers : Answers) (known : Progress) : Target → Progress
  | .standard => (answers.standard.filter Archivist.isRoot).foldl answers.process known
  | .package name => if answers.ready name then answers.process known name else known

/-- What is known after a run in which nothing was known at first. -/
def plan (answers : Answers) (targets : List Target) : Progress :=
  targets.foldl answers.serve ⟨[], []⟩

end Answers

/-- All that was heard from one draft to another, and what is known then if the table gives it. -/
def Planned (answers : Answers) (f : Progress → Progress) (d d' : Draft (Attentive World)) : Prop :=
  ∃ heard, d'.world.2 = d.world.2 ++ heard ∧
    ((∀ h ∈ heard, answers.Gives h) → d'.progress = f d.progress)

variable {answers : Answers} {f g : Progress → Progress} {d d' d'' : Draft (Attentive World)}

theorem Planned.trans (h : Planned answers f d d') (h' : Planned answers g d' d'') :
    Planned answers (fun known => g (f known)) d d'' := by
  obtain ⟨heard, hheard, hprogress⟩ := h
  obtain ⟨heard', hheard', hprogress'⟩ := h'
  refine ⟨heard ++ heard', by rw [hheard', hheard, List.append_assoc], fun hgives => ?_⟩
  rw [hprogress' fun h hmem => hgives h (List.mem_append_right _ hmem),
    hprogress fun h hmem => hgives h (List.mem_append_left _ hmem)]

/-- Nothing is heard, and what is known changes in a known way. -/
theorem planned_of_same (hheard : d'.world.2 = d.world.2) (hprogress : d'.progress = f d.progress) :
    Planned answers f d d' :=
  ⟨[], by rw [hheard, List.append_nil], fun _ => hprogress⟩

/-- Nothing was heard, and import paths were noted as archived. -/
structure Noted (names : List String) (d d' : Draft (Attentive World)) : Prop where
  silent : d'.world.2 = d.world.2
  progress : d'.progress = ⟨d.progress.tried, names.foldl noteNew d.progress.archived⟩

variable {names names' : List String}

theorem Noted.trans (h : Noted names d d') (h' : Noted names' d' d'') :
    Noted (names ++ names') d d'' where
  silent := h'.silent.trans h.silent
  progress := by rw [h'.progress, h.progress, List.foldl_append]

namespace Archivist

variable {a : Archivist World} {package : String} {u : Unit}

theorem noted_of_onDisk {job : Job α} {answer : α}
    (h : Yields (a.attentive.onDisk job) d answer d') :
    Noted [] d d' ∧ ∃ disk, Yields job (a.disk.get d.world.1) answer disk := by
  rw [Yields, resultOf_onDisk] at h
  obtain ⟨hjob, rfl⟩ := Prod.mk.inj h
  exact ⟨⟨rfl, rfl⟩, _, Prod.ext hjob rfl⟩

/-- What is heard of a call that was made. -/
theorem heard_of_inWorld (heard : α → World → List Heard) (act : World → α × World) {result : α}
    (h : Yields (inWorld (hearing heard act)) d result d') :
    d'.world.2 = d.world.2 ++ heard result d'.world.1 ∧ d'.progress = d.progress := by
  rw [Yields, resultOf_inWorld] at h
  obtain ⟨hresult, rfl⟩ := Prod.mk.inj h
  obtain rfl := Except.ok.inj hresult
  exact ⟨rfl, rfl⟩

theorem heard_of_listStandard {result : Except Host.Error (List String)}
    (h : Yields (inWorld a.attentive.builder.listStandard) d result d') :
    d'.world.2 = d.world.2 ++ result.toOption.toList.map .listed ∧ d'.progress = d.progress :=
  heard_of_inWorld (fun (answer : Except Host.Error (List String)) _ =>
    answer.toOption.toList.map .listed) a.builder.listStandard h

theorem heard_of_isAvailable {result : Except Host.Error Bool}
    (h : Yields (inWorld (a.attentive.builder.isAvailable · package)) d result d') :
    d'.world.2 = d.world.2 ++ heardAvailable package result ∧ d'.progress = d.progress :=
  heard_of_inWorld (fun answer _ => heardAvailable package answer)
    (a.builder.isAvailable · package) h

theorem heard_of_fetch {result : Except Host.Error Printout}
    (h : Yields (inWorld (a.attentive.builder.fetch · package)) d result d') :
    d'.world.2 = d.world.2 ++ heardFetched package result ∧ d'.progress = d.progress :=
  heard_of_inWorld (fun answer _ => heardFetched package answer) (a.builder.fetch · package) h

theorem heard_of_build {result : Except Host.Error Printout}
    (h : Yields (inWorld (a.attentive.builder.build · package)) d result d') :
    d'.world.2 = d.world.2 ++ [.built package (leftBy (a.disk.get d'.world.1) package result)] ∧
      d'.progress = d.progress :=
  heard_of_inWorld (fun answer world => [.built package (leftBy (a.disk.get world) package answer)])
    (a.builder.build · package) h

/-! ## Building -/

theorem noted_archiveOne {w : WorkDir} {importPath archive : String}
    (h : Yields (a.attentive.archiveOne w importPath archive) d u d') :
    Noted [importPath] d d' := by
  have hroute := a.attentive.archiveRoute w importPath archive d
  rw [show resultOf _ d = (.ok u, d') from h] at hroute
  cases hroute with
  | known hknown =>
    exact ⟨rfl, by rw [List.foldl_cons, noteNew, if_pos (List.contains_iff_mem.2 hknown)]; rfl⟩
  | filed hnew hparents hcopy happend =>
    obtain ⟨hsilent, hprogress⟩ := ((noted_of_onDisk hparents).1.trans (noted_of_onDisk hcopy).1).trans
      (noted_of_onDisk happend).1
    refine ⟨hsilent, ?_⟩
    rw [Draft.filed, hprogress, List.foldl_cons, noteNew,
      if_neg fun hknown => hnew (List.contains_iff_mem.1 hknown)]
    rfl

theorem noted_archives {w : WorkDir} {archives : List (String × String)}
    (h : Rounds (fun entry => a.attentive.archiveOne w entry.1 entry.2) archives d d') :
    Noted (archives.map Prod.fst) d d' := by
  induction h with
  | nil => exact ⟨rfl, rfl⟩
  | cons hfirst _ ih => exact (noted_archiveOne hfirst).trans ih

theorem noted_archiveAll {work : String}
    (h : Yields (a.attentive.archiveAll work package) d u d') :
    ∃ w, WorkDir.scan (a.disk.get d.world.1) work package = .ok w ∧
      Noted (w.archives.map Prod.fst) d d' := by
  obtain ⟨w, d₁, hscan, hrounds⟩ := rounds_archiveAll h
  obtain ⟨hnoted, disk, hask⟩ := noted_of_onDisk hscan
  exact ⟨w, (Job.yields_ask_iff.1 hask).1, hnoted.trans (noted_archives hrounds)⟩

/-- What is noted from the disk that a build has left is planned. -/
theorem planned_of_noted (answers : Answers) {answer : Except Host.Error Printout}
    (hbuild : Yields (inWorld (a.attentive.builder.build · package)) d answer d')
    (hnoted : Noted (leftBy (a.disk.get d'.world.1) package answer) d' d'') :
    Planned answers (fun known =>
      ⟨known.tried, (answers.named package).foldl noteNew known.archived⟩) d d'' := by
  obtain ⟨hheard, hprogress⟩ := heard_of_build hbuild
  refine ⟨_, hnoted.silent.trans hheard, fun hgives => ?_⟩
  have hnamed : leftBy (a.disk.get d'.world.1) package answer = answers.named package :=
    hgives _ (List.mem_singleton_self _)
  rw [hnoted.progress, hnamed, hprogress]

/-- What a build leaves is noted. -/
theorem planned_buildPackage (answers : Answers)
    (h : Yields (a.attentive.buildPackage package) d u d') :
    Planned answers (fun known =>
      ⟨known.tried, (answers.named package).foldl noteNew known.archived⟩) d d' := by
  have hroute := a.attentive.buildRoute package d
  rw [show resultOf _ d = (.ok u, d') from h] at hroute
  cases hroute with
  | @unannounced answer _ d₁ hbuild hnone =>
    refine planned_of_noted answers hbuild ?_
    have hleft : leftBy (a.disk.get d₁.world.1) package answer = [] := by
      cases answer with
      | error e => rfl
      | ok printout =>
        rw [leftBy, show printout.workDir? = none from hnone]
        cases printout.success with
        | false => rfl
        | true => rfl
    rw [hleft]
    exact ⟨rfl, rfl⟩
  | unbuilt hbuild hfailed hwork hdiscard =>
    refine planned_of_noted answers hbuild ?_
    rw [leftBy, hfailed, hwork]
    exact ⟨(noted_of_onDisk hdiscard).1.silent, (noted_of_onDisk hdiscard).1.progress⟩
  | built hbuild hsuccess hwork harchive hdiscard =>
    refine planned_of_noted answers hbuild ?_
    obtain ⟨w, hscan, hnoted⟩ := noted_archiveAll harchive
    have hboth := hnoted.trans (noted_of_onDisk hdiscard).1
    rw [List.append_nil] at hboth
    rw [leftBy, hsuccess, hwork]
    dsimp only
    rw [hscan]
    exact ⟨hboth.silent, hboth.progress⟩

/-! ## Serving -/

theorem planned_process (answers : Answers)
    (h : Yields (a.attentive.process package) d u d') :
    Planned answers (answers.process · package) d d' := by
  rw [Yields, resultOf_process] at h
  split at h
  · next hknown =>
    obtain ⟨-, rfl⟩ := Prod.mk.inj h
    exact planned_of_same rfl (if_pos hknown).symm
  · next hnew =>
    obtain ⟨heard, hheard, hprogress⟩ := planned_buildPackage answers h
    refine ⟨heard, hheard, fun hgives => ?_⟩
    show _ = answers.process d.progress package
    rw [hprogress hgives, Answers.process, if_neg hnew]
    rfl

/-- Whether a package is ready is what the table says. -/
theorem ready_of_ensureAvailable (answers : Answers) {result : Option String}
    (h : Yields (a.attentive.ensureAvailable package) d result d') :
    ∃ heard, d'.world.2 = d.world.2 ++ heard ∧ d'.progress = d.progress ∧
      ((∀ h ∈ heard, answers.Gives h) → answers.ready package = result.isNone) := by
  have hroute := a.attentive.readyRoute package d
  rw [show resultOf _ d = (.ok result, d') from h] at hroute
  cases hroute with
  | unknown hthere | there hthere =>
    obtain ⟨hheard, hprogress⟩ := heard_of_isAvailable hthere
    exact ⟨_, hheard, hprogress, fun hgives => (hgives _ (List.mem_singleton_self _)).symm⟩
  | @fetched answer _ d₁ _ hthere hfetch hresult =>
    obtain ⟨hheard, hprogress⟩ := heard_of_isAvailable hthere
    obtain ⟨hheard₂, hprogress₂⟩ := heard_of_fetch hfetch
    rw [show d₁.world.2 = d.world.2 from hheard.trans (List.append_nil _)] at hheard₂
    refine ⟨_, hheard₂, hprogress₂.trans hprogress, fun hgives => ?_⟩
    have hready : answer.toOption.any (·.success) = answers.ready package :=
      hgives _ (List.mem_singleton_self _)
    rw [hresult, hready]

theorem planned_packages (answers : Answers) {packages : List String}
    (h : Rounds a.attentive.process packages d d') :
    Planned answers (packages.foldl answers.process) d d' := by
  induction h with
  | nil => exact planned_of_same rfl rfl
  | cons hfirst _ ih => exact (planned_process answers hfirst).trans ih

theorem planned_serve (answers : Answers) {target : Target}
    (h : Yields (a.attentive.serve target) d u d') :
    Planned answers (answers.serve · target) d d' := by
  cases target with
  | standard =>
    obtain ⟨packages, d₁, hlist, hrounds⟩ := rounds_standard h
    obtain ⟨hheard, hprogress⟩ := heard_of_listStandard hlist
    obtain ⟨heard, hheard', hprogress'⟩ := planned_packages answers hrounds
    refine ⟨[.listed packages] ++ heard, ?_, fun hgives => ?_⟩
    · rw [hheard', hheard, List.append_assoc]
      rfl
    · have hlisted : packages = answers.standard := hgives (.listed packages) (by simp)
      rw [hprogress' fun h hmem => hgives h (List.mem_append_right _ hmem), hprogress, hlisted]
      rfl
  | package name =>
    obtain ⟨result, d₁, hready, hroute⟩ := yields_package h
    obtain ⟨heard, hheard, hprogress, htells⟩ := ready_of_ensureAvailable answers hready
    rcases hroute with ⟨rfl, hprocess⟩ | ⟨output, rfl, rfl⟩
    · obtain ⟨heard', hheard', hprogress'⟩ := planned_process answers hprocess
      refine ⟨heard ++ heard', by rw [hheard', hheard, List.append_assoc], fun hgives => ?_⟩
      have hyes : answers.ready name = true :=
        htells fun h hmem => hgives h (List.mem_append_left _ hmem)
      show _ = answers.serve d.progress (.package name)
      rw [hprogress' fun h hmem => hgives h (List.mem_append_right _ hmem), hprogress,
        Answers.serve, if_pos hyes]
    · refine ⟨heard, hheard, fun hgives => ?_⟩
      have hnot : ¬ answers.ready name = true := by simp [htells hgives]
      show _ = answers.serve d.progress (.package name)
      rw [Answers.serve, if_neg hnot]
      exact hprogress

theorem planned_targets (answers : Answers) {targets : List Target}
    (h : Rounds a.attentive.serve targets d d') :
    Planned answers (targets.foldl answers.serve) d d' := by
  induction h with
  | nil => exact planned_of_same rfl rfl
  | cons hfirst _ ih => exact (planned_serve answers hfirst).trans ih

/-- A run that goes through has gone as planned, if all that was heard is what the table says. -/
theorem planned_of_run (answers : Answers) {targets : List Target} {progress progress' : Progress}
    {w w' : Attentive World} {report : Report}
    (h : a.attentive.run targets progress w = (.ok report, progress', w')) :
    ∃ heard, w'.2 = w.2 ++ heard ∧
      ((∀ h ∈ heard, answers.Gives h) → progress' = targets.foldl answers.serve progress) := by
  obtain ⟨d₁, hprepare, hrounds⟩ := rounds_steps (yields_of_run h)
  obtain ⟨hsilent, hprogress⟩ := (noted_of_onDisk hprepare).1
  obtain ⟨heard, hheard, hplanned⟩ := planned_targets answers hrounds
  refine ⟨heard, hheard.trans (congrArg (· ++ heard) hsilent), fun hgives => ?_⟩
  rw [show progress' = _ from hplanned hgives, hprogress]
  rfl

end Archivist

end Workbench.Package
