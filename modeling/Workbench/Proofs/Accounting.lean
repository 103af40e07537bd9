import Workbench.Proofs.Bookkeeping
import Workbench.Proofs.ServedStore
import Workbench.Proofs.StagedWrites

set_option autoImplicit false

/-! # What becomes of every root

A run that goes through lists each of its roots once, as built, as skipped or as failed. What the
builder cannot do is reported there and keeps no later root from its turn; only a store that cannot
be written, a build that cannot be read, and a standard library that cannot be listed end a run. A
work directory does not outlast the turn of its root, whatever comes of it. -/

namespace Workbench.Package

open Host (Disk Job)

variable {World : Type}

/-! ## Roots -/

/-- Each root stands once in one of the lists, in order. -/
inductive Settled : (roots built skipped failed : List String) → Prop where
  | nil : Settled [] [] [] []
  | built {root : String} {roots built skipped failed : List String} :
      Settled roots built skipped failed → Settled (root :: roots) (root :: built) skipped failed
  | skipped {root : String} {roots built skipped failed : List String} :
      Settled roots built skipped failed → Settled (root :: roots) built (root :: skipped) failed
  | failed {root : String} {roots built skipped failed : List String} :
      Settled roots built skipped failed → Settled (root :: roots) built skipped (root :: failed)

theorem Settled.append {roots built skipped failed roots' built' skipped' failed' : List String}
    (h : Settled roots built skipped failed) (h' : Settled roots' built' skipped' failed') :
    Settled (roots ++ roots') (built ++ built') (skipped ++ skipped') (failed ++ failed') := by
  induction h with
  | nil => exact h'
  | built _ ih => exact .built ih
  | skipped _ ih => exact .skipped ih
  | failed _ ih => exact .failed ih

/-- A run has gone on and listed these roots. -/
def Settles (names : List String) (d d' : Draft World) : Prop :=
  ∃ built skipped failed, d'.report.built = d.report.built ++ built ∧
    d'.report.skipped = d.report.skipped ++ skipped ∧
    d'.report.failed = d.report.failed ++ failed ∧
    Settled names built skipped (failed.map Prod.fst)

variable {d d' d'' : Draft World} {names names' : List String} {package : String}

theorem Settles.trans (h : Settles names d d') (h' : Settles names' d' d'') :
    Settles (names ++ names') d d'' := by
  obtain ⟨built, skipped, failed, hbuilt, hskipped, hfailed, hsettled⟩ := h
  obtain ⟨built', skipped', failed', hbuilt', hskipped', hfailed', hsettled'⟩ := h'
  refine ⟨built ++ built', skipped ++ skipped', failed ++ failed', ?_, ?_, ?_, ?_⟩
  · rw [hbuilt', hbuilt, List.append_assoc]
  · rw [hskipped', hskipped, List.append_assoc]
  · rw [hfailed', hfailed, List.append_assoc]
  · rw [List.map_append]
    exact hsettled.append hsettled'

/-- A run has gone on and listed no root. -/
def Unlisted (d d' : Draft World) : Prop :=
  d'.report.built = d.report.built ∧ d'.report.skipped = d.report.skipped ∧
    d'.report.failed = d.report.failed

instance : IsPreorder (Draft World) Unlisted where
  refl _ := ⟨rfl, rfl, rfl⟩
  trans _ _ _ h h' := ⟨h'.1.trans h.1, h'.2.1.trans h.2.1, h'.2.2.trans h.2.2⟩

theorem Unlisted.settles (h : Unlisted d d') : Settles [] d d' :=
  ⟨[], [], [], by simp [h.1], by simp [h.2.1], by simp [h.2.2], .nil⟩

theorem Unlisted.failed (h : Unlisted d d') (package output : String) :
    Settles [package] d (d'.failed package output) :=
  h.settles.trans ⟨[], [], [(package, output)], by simp [Draft.failed], by simp [Draft.failed], rfl,
    .failed .nil⟩

theorem settles_skipped (d : Draft World) (package : String) :
    Settles [package] d (d.skipped package) :=
  ⟨[], [package], [], by simp [Draft.skipped], rfl, by simp [Draft.skipped], .skipped .nil⟩

theorem settles_built (d : Draft World) (package : String) :
    Settles [package] d (d.built package) :=
  ⟨[package], [], [], rfl, by simp [Draft.built], by simp [Draft.built], .built .nil⟩

namespace Archivist

/-- The roots that a target asks for in a world. -/
def rootsOf (a : Archivist World) (world : World) : Target → List String
  | .standard => (((a.builder.listStandard world).1.toOption).getD []).filter isRoot
  | .package name => [name]

/-- The roots that targets ask for one after the other. The standard library is listed when its turn
    has come. -/
def rootsFrom (a : Archivist World) : List Target → Draft World → List String
  | [], _ => []
  | target :: targets, d =>
    a.rootsOf d.world target ++ a.rootsFrom targets (resultOf (a.serve target) d).2

/-- The roots of a run. -/
def roots (a : Archivist World) (targets : List Target) (progress : Progress) (world : World) :
    List String :=
  a.rootsFrom targets (resultOf (a.onDisk (Job.makeDirs a.storeDir)) (.fresh world progress)).2

variable {a : Archivist World}

theorem unlisted_inWorld {α : Type} (act : World → α × World) : Leads Unlisted (inWorld act) :=
  fun _ => ⟨rfl, rfl, rfl⟩

theorem unlisted_onDisk {α : Type} (job : Job α) : Leads Unlisted (a.onDisk job) := by
  intro d
  rw [resultOf_onDisk]
  exact ⟨rfl, rfl, rfl⟩

theorem unlisted_archiveOne (w : WorkDir) (importPath archive : String) :
    Leads Unlisted (a.archiveOne w importPath archive) := by
  refine .bind_get fun d => ?_
  split
  · exact refl_of Unlisted d
  · refine ((unlisted_onDisk _).bind fun _ => (unlisted_onDisk _).bind fun _ =>
      (unlisted_onDisk _).bind fun _ => ?_) d
    exact fun d => ⟨rfl, rfl, rfl⟩

theorem unlisted_archiveAll (work package : String) :
    Leads Unlisted (a.archiveAll work package) := by
  refine (unlisted_onDisk _).bind fun w => ?_
  refine (Leads.forIn (fun entry _ _ => ?_) _).bind fun _ => leads_pure ()
  exact (unlisted_archiveOne w entry.1 entry.2).bind fun _ => leads_pure _

theorem settles_buildPackage {u : Unit} (h : Yields (a.buildPackage package) d u d') :
    Settles [package] d d' := by
  have hcalled : ∀ {answer : Except Host.Error Printout} {d₁ : Draft World},
      Yields (inWorld (a.builder.build · package)) d answer d₁ → Unlisted d d₁ :=
    fun hbuild => (unlisted_inWorld _).of_yields hbuild
  have hroute := a.buildRoute package d
  rw [show resultOf _ d = (.ok u, d') from h] at hroute
  cases hroute with
  | unannounced hbuild => exact (hcalled hbuild).failed package _
  | unbuilt hbuild _ _ hdiscard =>
    have hcleared := (unlisted_onDisk _).of_yields hdiscard
    exact (trans_of Unlisted (hcalled hbuild) hcleared).failed package _
  | built hbuild _ _ harchive hdiscard =>
    have harchived := (unlisted_archiveAll _ package).of_yields harchive
    have hcleared := (unlisted_onDisk _).of_yields hdiscard
    have hbefore := trans_of Unlisted (hcalled hbuild) (trans_of Unlisted harchived hcleared)
    exact hbefore.settles.trans (settles_built _ package)

theorem settles_process {u : Unit} (h : Yields (a.process package) d u d') :
    Settles [package] d d' := by
  rw [Yields, resultOf_process] at h
  split at h
  · obtain ⟨-, rfl⟩ := Prod.mk.inj h
    exact settles_skipped d package
  · have htried : Unlisted d (d.tried package) := ⟨rfl, rfl, rfl⟩
    exact htried.settles.trans (settles_buildPackage h)

theorem unlisted_ensureAvailable {result : Option String}
    (h : Yields (a.ensureAvailable package) d result d') : Unlisted d d' := by
  have hroute := a.readyRoute package d
  rw [show resultOf _ d = (.ok result, d') from h] at hroute
  cases hroute with
  | unknown hthere | there hthere => exact (unlisted_inWorld _).of_yields hthere
  | fetched hthere hfetch =>
    exact trans_of Unlisted ((unlisted_inWorld _).of_yields hthere)
      ((unlisted_inWorld _).of_yields hfetch)

theorem settles_packages {packages : List String} (h : Rounds a.process packages d d') :
    Settles packages d d' := by
  induction h with
  | @nil d => exact (refl_of Unlisted d).settles
  | cons hfirst _ ih => exact (settles_process hfirst).trans ih

theorem settles_serve {target : Target} {u : Unit} (h : Yields (a.serve target) d u d') :
    Settles (a.rootsOf d.world target) d d' := by
  cases target with
  | standard =>
    obtain ⟨packages, d₁, hlist, hrounds⟩ := rounds_standard h
    have hlisted : (a.builder.listStandard d.world).1 = .ok packages := by
      rw [Yields, resultOf_inWorld] at hlist
      exact Except.ok.inj (Prod.mk.inj hlist).1
    rw [rootsOf, hlisted]
    exact ((unlisted_inWorld _).of_yields hlist).settles.trans (settles_packages hrounds)
  | package name =>
    obtain ⟨result, d₁, hready, hroute⟩ := yields_package h
    have hunlisted := unlisted_ensureAvailable hready
    rcases hroute with ⟨rfl, hprocess⟩ | ⟨output, rfl, rfl⟩
    · exact hunlisted.settles.trans (settles_process hprocess)
    · exact hunlisted.failed name output

theorem settles_targets {targets : List Target} (h : Rounds a.serve targets d d') :
    Settles (a.rootsFrom targets d) d d' := by
  induction h with
  | @nil d => exact (refl_of Unlisted d).settles
  | @cons target targets u d d₁ d₂ hfirst _ ih =>
    rw [rootsFrom, show resultOf _ d = (.ok u, d₁) from hfirst]
    exact (settles_serve hfirst).trans ih

/-- A run that goes through settles all its roots. -/
theorem settled_of_run {targets : List Target} {progress progress' : Progress}
    {world world' : World} {report : Report}
    (h : a.run targets progress world = (.ok report, progress', world')) :
    Settled (a.roots targets progress world) report.built report.skipped
      (report.failed.map Prod.fst) := by
  obtain ⟨d₁, hprepare, hrounds⟩ := rounds_steps (yields_of_run h)
  have hsettles := ((unlisted_onDisk _).of_yields hprepare).settles.trans (settles_targets hrounds)
  rw [roots, show resultOf _ _ = (.ok (), d₁) from hprepare]
  obtain ⟨built, skipped, failed, hbuilt, hskipped, hfailed, hsettled⟩ := hsettles
  rw [show report.built = built from hbuilt, show report.skipped = skipped from hskipped,
    show report.failed = failed from hfailed]
  exact hsettled

end Archivist

/-! ## Work directories -/

/-- A deed removes a work directory, as far as that is possible: nothing is left there if it is. -/
structure Clears (work : String) (deed : Deed) : Prop where
  job : deed.cause = .job
  attempted : resultOf (Archivist.removal work) deed.before = (.ok (), deed.after)
  gone : ∀ d, Yields (Job.removeTree work) deed.before () d →
    ∀ rest, deed.after.shapeAt (deed.before.placeOf work ++ rest) = none

/-- Each work directory that a build announced was cleared before anything else was done than jobs
    of the run itself. -/
def Cleared (log : List Deed) : Prop :=
  ∀ early package work before built late,
    log = early ++ ⟨.build package (some work), before, built⟩ :: late →
      ∃ jobs removal rest, late = jobs ++ removal :: rest ∧ (∀ deed ∈ jobs, deed.cause = .job) ∧
        Clears work removal

theorem Cleared.append {log log' : List Deed} (h : Cleared log) (h' : Cleared log') :
    Cleared (log ++ log') := by
  intro early package work before built late hsplit
  rcases List.append_eq_append_iff.1 hsplit with ⟨more, rfl, hlate⟩ | ⟨more, rfl, hlate⟩
  · exact h' more package work before built late hlate
  · cases more with
    | nil => exact h' [] package work before built late hlate.symm
    | cons deed more =>
      obtain ⟨rfl, rfl⟩ := List.cons.inj hlate
      obtain ⟨jobs, removal, rest, rfl, hjobs, hclears⟩ := h early package work before built more rfl
      exact ⟨jobs, removal, rest ++ log', by simp, hjobs, hclears⟩

theorem cleared_of_no_build {log : List Deed}
    (h : ∀ deed ∈ log, ∀ package work, deed.cause ≠ .build package (some work)) : Cleared log := by
  rintro early package work before built late rfl
  exact absurd rfl (h _ (List.mem_append_right _ List.mem_cons_self) package work)

/-- A run has gone on and has cleared what it had built. -/
def Tidied (d d' : Draft (Recorded World)) : Prop := ∃ new, d'.log = d.log ++ new ∧ Cleared new

instance : IsPreorder (Draft (Recorded World)) Tidied where
  refl _ := ⟨[], by simp, cleared_of_no_build (by simp)⟩
  trans _ _ _ := by
    rintro ⟨new, hlog, hcleared⟩ ⟨new', hlog', hcleared'⟩
    exact ⟨new ++ new', by rw [hlog', hlog, List.append_assoc], hcleared.append hcleared'⟩

namespace Archivist

variable {a : Archivist World} {package : String}

theorem Follows.tidied {cause : Cause} {d d' : Draft (Recorded World)} (h : a.Follows cause d d')
    (hcause : ∀ package work, cause ≠ .build package (some work)) : Tidied d d' :=
  ⟨_, h.log, cleared_of_no_build (by simpa using hcause)⟩

theorem Does.clears {work : String} {d d' : Draft (Recorded World)}
    (h : a.Does (removal work) d (.ok ()) d') :
    Clears work ⟨.job, a.diskOf d, a.diskOf d'⟩ where
  job := rfl
  attempted := h.outcome
  gone disk hremoved rest := by
    have hattempt : resultOf (removal work) (a.diskOf d) = (.ok (), disk) := by
      rw [removal, Job.attempt, resultOf_tryCatch, show resultOf _ _ = (.ok (), disk) from hremoved,
        recoverWith]
    obtain ⟨-, rfl⟩ := Prod.mk.inj (hattempt.symm.trans h.outcome)
    rw [(Job.shapeAt_removeTree hremoved).2.2, if_pos (List.prefix_append _ _)]

/-- What was built is cleared once its archives have been seen to. -/
theorem tidied_of_toiled {d d₁ d₂ d₃ : Draft (Recorded World)} {work : String}
    (hbuilt : a.Follows (.build package (some work)) d d₁) (htoiled : Toiled d₁ d₂)
    (hremoved : a.Does (removal work) d₂ (.ok ()) d₃) : Tidied d d₃ := by
  obtain ⟨jobs, hlog, hjobs⟩ := htoiled
  refine ⟨⟨.build package (some work), a.diskOf d, a.diskOf d₁⟩ ::
    (jobs ++ [⟨.job, a.diskOf d₂, a.diskOf d₃⟩]), ?_, ?_⟩
  · rw [hremoved.follows.log, hlog, hbuilt.log]
    simp
  · intro early package' work' before built late hsplit
    cases early with
    | nil =>
      obtain ⟨hdeed, rfl⟩ := List.cons.inj hsplit
      cases hdeed
      exact ⟨jobs, _, [], rfl, hjobs, hremoved.clears⟩
    | cons deed early =>
      -- what follows the build are jobs
      have hmem : ⟨.build package' (some work'), before, built⟩ ∈
          jobs ++ [(⟨.job, a.diskOf d₂, a.diskOf d₃⟩ : Deed)] := by
        rw [(List.cons.inj hsplit).2]
        exact List.mem_append_right _ List.mem_cons_self
      rcases List.mem_append.1 hmem with hmem | hmem
      · cases hjobs _ hmem
      · cases List.mem_singleton.1 hmem

variable (hdisk : ∀ w d, a.disk.get (a.disk.set w d) = d)

include hdisk in
theorem Building.tidied {d : Draft (Recorded World)}
    {outcome : Except Host.Error Unit × Draft (Recorded World)}
    (h : a.Building package d outcome) : Tidied d outcome.2 := by
  have hnoted : ∀ {d₁ : Draft (Recorded World)} (report : Report),
      Tidied d₁ { d₁ with report := report } :=
    fun report => ⟨[], by rw [List.append_nil]; rfl, cleared_of_no_build (by simp)⟩
  cases h with
  | unannounced hbuilt => exact trans_of Tidied (hbuilt.tidied (by simp)) (hnoted _)
  | unbuilt hbuilt hremoved =>
    exact trans_of Tidied (tidied_of_toiled hbuilt (refl_of Toiled _) hremoved) (hnoted _)
  | unarchived hbuilt hfails hremoved =>
    exact tidied_of_toiled hbuilt.follows
      ((toiled_archiveAll hdisk _ _).of_fails hfails) hremoved
  | built hbuilt hyields hremoved =>
    refine trans_of Tidied (tidied_of_toiled hbuilt.follows ?_ hremoved) (hnoted _)
    exact (toiled_archiveAll hdisk _ _).of_yields hyields

include hdisk in
/-- Whatever comes of a run, it leaves no work directory behind that could be removed. -/
theorem tidied_steps (targets : List Target) : Leads Tidied (a.recorded.steps targets) := by
  have hcovered : a.Covered Tidied fun d _ d' => Tidied d d' :=
    { prepare hdoes :=
        ⟨fun _ _ => hdoes.follows.tidied (by simp), fun _ _ => hdoes.follows.tidied (by simp)⟩
      called hcalled := hcalled.tidied (by simp)
      unlisted hcalled _ := hcalled.tidied (by simp)
      failed d package output := refl_of Tidied d
      skipped d package _ := refl_of Tidied d
      built _ _ hbuilding := ⟨fun _ _ => hbuilding.tidied hdisk, fun _ _ => hbuilding.tidied hdisk⟩ }
  exact fun d => (hcovered.steps hdisk passes_self targets d).leads

/-! ## Runs that end early -/

/-- Why a run has ended early: after its last deeds the store could not be made, the standard library
    could not be listed, or what a build had left could not be archived. -/
inductive Stopped (a : Archivist World) (log : List Deed) (e : Host.Error) : Prop where
  | unprepared {early : List Deed} {before after : Disk} : log = early ++ [⟨.job, before, after⟩] →
      resultOf (Job.makeDirs a.storeDir) before = (.error e, after) → Stopped a log e
  | unlisted {early : List Deed} {before after : World} :
      log = early ++ [⟨.call, a.disk.get before, a.disk.get after⟩] →
      a.builder.listStandard before = (.error e, after) → Stopped a log e
  | unarchived {early jobs : List Deed} {package work : String} {printout : Printout}
      {before : World} {d : Draft World} :
      log = early ++ ⟨.build package (some work), a.disk.get before, a.disk.get d.world⟩ :: jobs →
      (∀ deed ∈ jobs, deed.cause = .job) →
      a.builder.build before package = (.ok printout, d.world) → printout.success = true →
      printout.workDir? = some work →
      (resultOf (a.archiveAll work package) d).1 = .error e → Stopped a log e

include hdisk in
theorem Building.stopped {d d' : Draft (Recorded World)} {e : Host.Error}
    (h : a.Building package d (.error e, d')) : a.Stopped d'.log e := by
  cases h with
  | @unarchived work _ d₁ d₂ _ hbuilt hfails hremoved =>
    obtain ⟨jobs, hlog, hjobs⟩ := (toiled_archiveAll hdisk _ _).of_fails hfails
    obtain ⟨printout, hbuild, hsuccess, hwork⟩ := hbuilt.succeeds
    have hplain := erases_archiveAll (a := a) work package d₁
    rw [show resultOf _ d₁ = (.error e, d₂) from hfails] at hplain
    have hlog' : d'.log = d.log ++ ⟨.build package (some work), a.diskOf d, a.diskOf d₁⟩ ::
        (jobs ++ [⟨.job, a.diskOf d₂, a.diskOf d'⟩]) := by
      rw [hremoved.follows.log, hlog, hbuilt.follows.log]
      simp
    refine .unarchived (d := d₁.plain) hlog' (fun deed hdeed => ?_) hbuild hsuccess hwork
      (congrArg Prod.fst hplain)
    rcases List.mem_append.1 hdeed with hdeed | hdeed
    · exact hjobs deed hdeed
    · rw [List.mem_singleton.1 hdeed]

include hdisk in
/-- What the builder cannot build, fetch or find does not end a run. -/
theorem stopped_of_fails {targets : List Target} {d d' : Draft (Recorded World)} {e : Host.Error}
    (h : Fails (a.recorded.steps targets) d e d') : a.Stopped d'.log e := by
  have hcovered : a.Covered (fun _ _ => True) fun _ e d' => a.Stopped d'.log e :=
    { prepare hdoes := ⟨fun _ _ => trivial, fun e he => .unprepared hdoes.follows.log (by
        rw [← he]
        exact hdoes.outcome)⟩
      called _ := trivial
      unlisted hcalled hlisted := .unlisted hcalled.log hlisted
      failed _ _ _ := trivial
      skipped _ _ _ := trivial
      built {d package outcome} _ _ hbuilding := ⟨fun _ _ => trivial, fun e he => by
        obtain ⟨result, d'⟩ := outcome
        obtain rfl := he
        exact hbuilding.stopped hdisk⟩ }
  have hpreorder : IsPreorder (Draft (Recorded World)) fun _ _ => True :=
    { refl := fun _ => trivial, trans := fun _ _ _ _ _ => trivial }
  have hended := hcovered.steps hdisk (fun _ _ _ _ _ h => h) targets d
  rw [show resultOf _ d = (.error e, d') from h] at hended
  exact hended.fails e rfl

/-! ## Whole lifetimes -/

/-- What is accounted for after a run: `history` was done in the runs before, and `new` in this one.
    -/
structure Accounts (a : Archivist World) (history new : List Deed) (before after : Disk)
    (roots : List String) (results : List (Except Host.Error Report))
    (result : Except Host.Error Report) : Prop where
  /-- Each root of a run that goes through is listed once, in order. -/
  settled : ∀ report, result = .ok report →
    Settled roots report.built report.skipped (report.failed.map Prod.fst)
  /-- No package was built twice, and no import path reported twice. -/
  askedOnce : (asked (history ++ new)).Nodup
  reportedOnce : (reported (results ++ [result])).Nodup
  /-- The manifest has grown by the lines of what is reported. -/
  appended : a.ManifestApart → a.LeavesManifest history new → ∃ records,
    (∀ report, result = .ok report → records = report.records) ∧
      a.manifestAt after = a.manifestAt before ++ (linesText records).toUTF8
  /-- What the run itself has written there are single lines, each when its archive was in the store.
      -/
  ordered : (∀ deed ∈ new, deed.before.Grounded) →
    ∀ early deed late, new = early ++ deed :: late → ∃ records, a.Adds (history ++ early) deed records
  /-- Every work directory is gone. -/
  cleared : Cleared new
  /-- Failures of the builder, other than to list the standard library, do not end a run. -/
  stopped : ∀ e, result = .error e → a.Stopped (history ++ new) e

/-- A builder who builds one package, fails to build and to fetch another two, and forgets to
    announce the work directory of a fourth. -/
def mixedBuild : BuildRehearsal where
  disk := manifestDisk "site/prebuilt/manifest.txt" "old -> /old.a\n"
  script :=
    { standard := .ok ["a", "cmd/a"]
      available := [("c", [.ok false])]
      fetch := [("c", [⟨[], .ok ⟨false, "", "not found"⟩⟩])]
      build := [("a", [⟨[("work/b001/_pkg_.a", some "A".toUTF8),
          ("work/b001/importcfg", some "packagefile x/b=lib/b.a\n".toUTF8),
          ("lib/b.a", some "B".toUTF8)], .ok ⟨true, "", "WORK=work\n"⟩⟩]),
        ("b", [⟨[("spoilt/b001/_pkg_.a", some "B".toUTF8)], .ok ⟨false, "", "WORK=spoilt\n"⟩⟩]),
        ("d", [⟨[], .ok ⟨true, "", ""⟩⟩])] }
  called := []
  forgotten := 0

/-- What is done when the builder works for a package first and then for several targets. -/
def mixedDeeds : List Deed :=
  rehearsed.history [[.package "b"], [.package "a", .standard, .package "c", .package "d"]] mixedBuild

/-- A run for one package goes through; it finds a text in the manifest, and leaves another there
    than that text with the lines of what it reports. -/
def Overwrites (a : Archivist BuildRehearsal) (world : BuildRehearsal) (found left : String) :
    Prop :=
  ∃ report progress world', a.run [.package "a"] ⟨[], []⟩ world = (.ok report, progress, world') ∧
    a.manifestAt world.disk = found.toUTF8 ∧ a.manifestAt world'.disk = left.toUTF8 ∧
    a.manifestAt world'.disk ≠ a.manifestAt world.disk ++ (linesText report.records).toUTF8

include hdisk in
/-- After any number of runs, the next one is accounted for. -/
theorem run_accounts {calls : List (List Target)} {targets : List Target}
    {world world₁ world₂ : World} {results : List (Except Host.Error Report)}
    {result : Except Host.Error Report} {progress progress₂ : Progress}
    (hcalls : a.runs calls ⟨[], []⟩ world = (results, progress, world₁))
    (hcall : a.run targets progress world₁ = (result, progress₂, world₂)) :
    ∃ new, a.history (calls ++ [targets]) world = a.history calls world ++ new ∧
      a.Accounts (a.history calls world) new (a.disk.get world₁) (a.disk.get world₂)
        (a.roots targets progress world₁) results result := by
  obtain ⟨outcome, d, hlast⟩ := exists_lastRun hcalls hcall
  have hlines := (parts_lined a).steps hdisk targets
    (.fresh (world₁, a.history calls world) progress)
  have htidied := tidied_steps hdisk targets (.fresh (world₁, a.history calls world) progress)
  rw [hlast.course] at hlines htidied
  obtain ⟨new, records, hlines⟩ := hlines
  obtain ⟨new', hlog, hcleared⟩ := htidied
  obtain rfl := List.append_cancel_left (hlines.log.symm.trans hlog)
  have hnew : d.log = a.history calls world ++ new := hlog
  have hafter : a.diskOf d = a.disk.get world₂ := by rw [diskOf, hlast.ends]
  refine ⟨new, by rw [← hnew, Draft.log, hlast.ends], ?_⟩
  have happends := hlines.appends
  rw [hafter] at happends
  constructor
  case settled =>
    rintro report rfl
    exact settled_of_run hcall
  case askedOnce => exact hnew ▸ (hlast.once hdisk).1
  case reportedOnce => exact (hlast.once hdisk).2
  case appended =>
    intro hapart hleaves
    refine ⟨records, fun report hreport => ?_, ?_⟩
    · rw [hlast.comes] at hreport
      cases outcome with
      | error e => cases hreport
      | ok =>
        cases hreport
        exact hlines.reported.symm
    · exact (happends hleaves.grounded).manifest hapart hleaves.kept
  case ordered =>
    intro hgrounded early deed late hsplit
    exact (happends hgrounded).adds hsplit
  case cleared => exact hcleared
  case stopped =>
    intro e he
    rw [hlast.comes] at he
    cases outcome with
    | error e' =>
      cases he
      exact hnew ▸ stopped_of_fails hdisk hlast.course
    | ok => cases he

theorem rehearsed_manifestApart : rehearsed.ManifestApart :=
  fun d importPath => rehearsed_placed.manifest_ne importPath d

/-- A manifest is left alone where all but the jobs of a run have kept its bytes. -/
theorem leavesManifest_of_kept {history new : List Deed}
    (h : ∀ deed ∈ new, (deed.before.tree.get? deed.before.cwd).any Tree.isDir = true ∧
      (deed.cause = .job ∧ mayRemove (history ++ new) deed = false ∨
        (a.manifestAt deed.after).data = (a.manifestAt deed.before).data)) :
    a.LeavesManifest history new where
  grounded deed hdeed := Disk.grounded_of_isDir (h deed hdeed).1
  kept := by
    rintro done deed late rfl houtside
    rcases (h deed (List.mem_append_right _ List.mem_cons_self)).2 with ⟨hjob, hnot⟩ | hsame
    · rw [← List.append_assoc] at hnot
      exact absurd (houtside hjob) (not_removes_of_mayRemove hnot)
    · exact ByteArray.ext hsame

theorem run_accounts_mixed : ∃ results progress world₁ report progress₂ world₂ new,
    rehearsed.runs [[.package "b"]] ⟨[], []⟩ mixedBuild = (results, progress, world₁) ∧
    rehearsed.run [.package "a", .standard, .package "c", .package "d"] progress world₁ =
      (.ok report, progress₂, world₂) ∧
    mixedDeeds = rehearsed.history [[.package "b"]] mixedBuild ++ new ∧
    rehearsed.ManifestApart ∧
    rehearsed.LeavesManifest (rehearsed.history [[.package "b"]] mixedBuild) new ∧
    report.built = ["a"] ∧ report.skipped = ["a"] ∧ report.failed.map Prod.fst = ["c", "d"] ∧
    report.records.map (·.importPath) = ["a", "x/b"] ∧
    rehearsed.Accounts (rehearsed.history [[.package "b"]] mixedBuild) new world₁.disk world₂.disk
      (rehearsed.roots [.package "a", .standard, .package "c", .package "d"] progress world₁)
      results (.ok report) := by
  have hlists : (rehearsed.run [.package "a", .standard, .package "c", .package "d"]
      (rehearsed.runs [[.package "b"]] ⟨[], []⟩ mixedBuild).2.1
      (rehearsed.runs [[.package "b"]] ⟨[], []⟩ mixedBuild).2.2).1.toOption.map (fun report =>
        (report.built, report.skipped, report.failed.map Prod.fst,
          report.records.map (·.importPath))) = some (["a"], ["a"], ["c", "d"], ["a", "x/b"]) := by
    decide +kernel
  have hkept : ∀ deed ∈ mixedDeeds.drop (rehearsed.history [[.package "b"]] mixedBuild).length,
      (deed.before.tree.get? deed.before.cwd).any Tree.isDir = true ∧
      (deed.cause = .job ∧ mayRemove mixedDeeds deed = false ∨
        (rehearsed.manifestAt deed.after).data = (rehearsed.manifestAt deed.before).data) := by
    decide +kernel
  rcases hcalls : rehearsed.runs [[.package "b"]] ⟨[], []⟩ mixedBuild with
    ⟨results, progress, world₁⟩
  rcases hcall : rehearsed.run [.package "a", .standard, .package "c", .package "d"] progress
    world₁ with ⟨e | report, progress₂, world₂⟩ <;> rw [hcalls] at hlists <;>
      dsimp only at hlists <;> rw [hcall] at hlists
  · cases hlists
  obtain ⟨hbuilt, hlists⟩ := Prod.mk.inj (Option.some.inj hlists)
  obtain ⟨hskipped, hlists⟩ := Prod.mk.inj hlists
  obtain ⟨hfailed, hpaths⟩ := Prod.mk.inj hlists
  obtain ⟨new, hnew, haccounts⟩ := run_accounts (fun _ _ => rfl) hcalls hcall
  have hall : mixedDeeds = rehearsed.history [[.package "b"]] mixedBuild ++ new := hnew
  rw [hall, List.drop_left] at hkept
  exact ⟨results, progress, world₁, report, progress₂, world₂, new, rfl, hcall, hall,
    rehearsed_manifestApart, leavesManifest_of_kept hkept, hbuilt, hskipped, hfailed, hpaths,
    haccounts⟩

theorem overwrites_of_run {a : Archivist BuildRehearsal} {world : BuildRehearsal}
    {found left : String} (lines : List String)
    (hrun : ((a.run [.package "a"] ⟨[], []⟩ world).1.toOption.map (·.records.map (·.line)),
      (a.manifestAt (a.run [.package "a"] ⟨[], []⟩ world).2.2.disk).data) =
        (some lines, left.toUTF8.data))
    (hfound : (a.manifestAt world.disk).data = found.toUTF8.data)
    (hne : left.toUTF8.data ≠
      (found.toUTF8 ++ (String.join (lines.map (· ++ "\n"))).toUTF8).data) :
    a.Overwrites world found left := by
  rcases hresult : a.run [.package "a"] ⟨[], []⟩ world with ⟨e | report, progress, world'⟩ <;>
    rw [hresult] at hrun <;> obtain ⟨hlines, hleft⟩ := Prod.mk.inj hrun
  · cases hlines
  obtain rfl := Option.some.inj hlines
  refine ⟨report, progress, world', hresult, ByteArray.ext hfound, ByteArray.ext hleft, fun heq => ?_⟩
  rw [ByteArray.ext hfound, ByteArray.ext hleft] at heq
  rw [List.map_map] at hne
  exact hne (congrArg ByteArray.data heq)

/-- A builder may write to the manifest, it may announce the store as its work directory, and the
    manifest may be the file for an archive. -/
theorem run_accounts_overwritten :
    rehearsed.Overwrites (scripted (manifestDisk "site/prebuilt/manifest.txt" "old -> /old.a\n")
      [("a", [("work/b001/_pkg_.a", "A"), ("site/prebuilt/manifest.txt", "new -> /new.a\n")],
        "work")] [])
      "old -> /old.a\n" "new -> /new.a\na -> /prebuilt/a.a\n" ∧
    rehearsed.Overwrites (scripted (manifestDisk "site/prebuilt/manifest.txt" "old -> /old.a\n")
      [("a", [("site/prebuilt/b001/_pkg_.a", "A")], "site/prebuilt")] [])
      "old -> /old.a\n" "" ∧
    { rehearsed with manifestPath := "site/prebuilt/a.a" }.Overwrites
      (scripted (manifestDisk "site/prebuilt/a.a" "old -> /old.a\n")
        [("a", [("work/b001/_pkg_.a", "A")], "work")] [])
      "old -> /old.a\n" "Aa -> /prebuilt/a.a\n" := by
  refine ⟨overwrites_of_run ["a -> /prebuilt/a.a"] ?_ ?_ ?_,
    overwrites_of_run ["a -> /prebuilt/a.a"] ?_ ?_ ?_,
    overwrites_of_run ["a -> /prebuilt/a.a"] ?_ ?_ ?_⟩ <;> decide +kernel

end Archivist

end Workbench.Package
