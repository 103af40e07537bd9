import Workbench.Proofs.DiskJobs
import Workbench.Proofs.RecordedRun
import Workbench.Proofs.StorePaths

set_option autoImplicit false

/-! # What a run puts into its store

A run copies archives into its store and binds them in its manifest, one after the other, while the
builder works on the same disk. As long as neither the builder nor the removal of its work
directories touches what the run has put there, every binding the run reports is in the manifest,
and the file it stands for holds the bytes of the archive when it was copied. The invariant says so
of each draft of a run; each step advances from one draft to the next and keeps it. -/

namespace Workbench.Package

open Host (Disk Job Location)

variable {World α : Type}

/-- The disk of a run under way. -/
def Archivist.diskOf (a : Archivist World) (d : Draft (Recorded World)) : Disk :=
  a.disk.get d.world.1

/-- What has been done in a run under way. -/
def Draft.log (d : Draft (Recorded World)) : List Deed := d.world.2

/-- A build of a package left a disk with a work directory, and since then only the run itself was
    at work. -/
def Left (log : List Deed) (package work : String) (built : Disk) : Prop :=
  ∃ early start jobs, log = early ++ ⟨.build package (some work), start, built⟩ :: jobs ∧
    ∀ deed ∈ jobs, deed.cause = .job

theorem Left.built_mem {log : List Deed} {package work : String} {built : Disk}
    (h : Left log package work built) :
    ∃ start, (⟨.build package (some work), start, built⟩ : Deed) ∈ log := by
  obtain ⟨early, start, jobs, rfl, -⟩ := h
  exact ⟨start, List.mem_append_right _ List.mem_cons_self⟩

/-- A run has copied an archive for an import path that is named in the work directory of a build.
    -/
def Archivist.Copied (a : Archivist World) (log : List Deed) (importPath archive : String)
    (before : Disk) : Prop :=
  ∃ early after late package work built w, log = early ++ ⟨.job, before, after⟩ :: late ∧
    Left early package work built ∧ WorkDir.scan built work package = .ok w ∧
    (importPath, archive) ∈ w.archives ∧
    Yields (Job.copy archive (a.storeFile importPath)) before () after

/-- The bytes that a run has stored for an import path: those of the archive that was copied. An
    archive that was the file in the store itself was emptied by that. -/
def Archivist.Archived (a : Archivist World) (log : List Deed) (importPath : String)
    (bytes : ByteArray) : Prop :=
  ∃ archive before content, a.Copied log importPath archive before ∧
    before.read archive = .ok content ∧
    bytes = if before.placeOf archive = before.placeOf (a.storeFile importPath) then .empty
      else content

/-- What a run has put on the disk is still there after a deed. -/
structure Archivist.Spares (a : Archivist World) (early : List Deed) (deed : Deed) : Prop where
  grounded : deed.after.Grounded
  stored : ∀ importPath bytes, a.Archived early importPath bytes →
    deed.before.read (a.storeFile importPath) = .ok bytes →
    deed.after.read (a.storeFile importPath) = .ok bytes
  manifest : deed.after.contentAt (deed.after.placeOf a.manifestPath) =
    deed.before.contentAt (deed.before.placeOf a.manifestPath)
  readable : ∀ bytes, deed.before.read a.manifestPath = .ok bytes →
    deed.after.read a.manifestPath = .ok bytes

/-- A deed removes a work directory that a build announced. -/
def Removes (early : List Deed) (deed : Deed) : Prop :=
  ∃ package work start built, ⟨.build package (some work), start, built⟩ ∈ early ∧
    resultOf (Job.attempt (Job.removeTree work)) deed.before = (.ok (), deed.after)

/-- Neither the builder nor the removal of its work directories touches what the run has put on the
    disk. -/
def Archivist.Undisturbed (a : Archivist World) (log : List Deed) : Prop :=
  ∀ early deed late, log = early ++ deed :: late → (deed.cause = .job → Removes early deed) →
    a.Spares early deed

namespace Archivist

theorem Archived.append {a : Archivist World} {log : List Deed} {importPath : String}
    {bytes : ByteArray} (h : a.Archived log importPath bytes) (more : List Deed) :
    a.Archived (log ++ more) importPath bytes := by
  obtain ⟨archive, before, content, ⟨early, after, late, package, work, built, w, rfl, h⟩, hread⟩ :=
    h
  exact ⟨archive, before, content, ⟨early, after, late ++ more, package, work, built, w,
    by rw [List.append_assoc, List.cons_append], h⟩, hread⟩

theorem Undisturbed.earlier {a : Archivist World} {log more : List Deed}
    (h : a.Undisturbed (log ++ more)) : a.Undisturbed log := by
  rintro early deed late rfl
  exact h early deed (late ++ more) (by rw [List.append_assoc, List.cons_append])

/-- What a run under way has come to: all that it reports is in its store and in its manifest, which
    binds beside that what it bound before. -/
structure Real (a : Archivist World) (m : Manifest) (d : Draft (Recorded World)) : Prop where
  grounded : (a.diskOf d).Grounded
  known : ∀ r ∈ d.report.records,
    r.importPath ∈ d.progress.archived ∧ r.storedPath = a.storedPath r.importPath
  held : ∀ r ∈ d.report.records, ∃ bytes, a.Archived d.log r.importPath bytes ∧
    (a.diskOf d).read (a.storeFile r.importPath) = .ok bytes
  bound : ∃ m', Manifest.Spells ((a.diskOf d).contentAt ((a.diskOf d).placeOf a.manifestPath)) m' ∧
    ∀ i, m'.get? i =
      if i ∈ d.report.records.map (·.importPath) then some (a.storedPath i) else m.get? i
  readable : d.report.records ≠ [] → ∃ bytes, (a.diskOf d).read a.manifestPath = .ok bytes

/-- A run goes on from a draft to another, and what it has come to stays real. -/
structure Advances (a : Archivist World) (m : Manifest) (d d' : Draft (Recorded World)) : Prop where
  logged : d.log <+: d'.log
  reported : d.report.records ⊆ d'.report.records
  real : a.Undisturbed d'.log → (∀ r ∈ d'.report.records, IsImportPath r.importPath) →
    a.Real m d → a.Real m d'

variable {a : Archivist World} {m : Manifest} {d d' d'' : Draft (Recorded World)}

theorem Advances.trans (h : a.Advances m d d') (h' : a.Advances m d' d'') : a.Advances m d d'' where
  logged := h.logged.trans h'.logged
  reported _ hr := h'.reported (h.reported hr)
  real hquiet hgood hreal := by
    obtain ⟨more, hmore⟩ := h'.logged
    have hquiet' : a.Undisturbed d'.log := (hmore ▸ hquiet).earlier
    exact h'.real hquiet hgood (h.real hquiet' (fun r hr => hgood r (h'.reported hr)) hreal)

/-- Drafts may differ in what is neither stored nor bound. -/
theorem advances_of_same (hworld : d'.world = d.world)
    (hrecords : d'.report.records = d.report.records)
    (harchived : d'.progress.archived = d.progress.archived) : a.Advances m d d' := by
  have hlog : d'.log = d.log := congrArg Prod.snd hworld
  have hdisk : a.diskOf d' = a.diskOf d := by rw [diskOf, hworld, diskOf]
  refine ⟨hlog ▸ List.prefix_rfl, hrecords ▸ List.Subset.refl _, fun _ _ hreal => ?_⟩
  constructor
  · rw [hdisk]
    exact hreal.grounded
  · rw [hrecords, harchived]
    exact hreal.known
  · rw [hrecords, hlog, hdisk]
    exact hreal.held
  · rw [hrecords, hdisk]
    exact hreal.bound
  · rw [hrecords, hdisk]
    exact hreal.readable

theorem Advances.refl (d : Draft (Recorded World)) : a.Advances m d d :=
  advances_of_same rfl rfl rfl

/-! ## What steps do to the disk -/

variable (hdisk : ∀ w d, a.disk.get (a.disk.set w d) = d)

/-- A draft after one more deed. -/
structure Follows (a : Archivist World) (cause : Cause) (d d' : Draft (Recorded World)) : Prop where
  log : d'.log = d.log ++ [⟨cause, a.diskOf d, a.diskOf d'⟩]
  progress : d'.progress = d.progress
  report : d'.report = d.report

theorem Follows.logged {cause : Cause} (h : a.Follows cause d d') : d.log <+: d'.log :=
  h.log ▸ List.prefix_append _ _

theorem Follows.mem_log {cause : Cause} (h : a.Follows cause d d') :
    ⟨cause, a.diskOf d, a.diskOf d'⟩ ∈ d'.log :=
  h.log ▸ List.mem_append_right _ (List.mem_singleton_self _)

include hdisk in
/-- A job of the run is recorded as one, whatever comes of it. -/
theorem follows_of_onDisk {job : Job α} {result : Except Host.Error α}
    (h : resultOf (a.recorded.onDisk job) d = (result, d')) :
    resultOf job (a.diskOf d) = (result, a.diskOf d') ∧ a.Follows .job d d' := by
  rw [resultOf_onDisk] at h
  obtain ⟨hjob, rfl⟩ := Prod.mk.inj h
  have hafter : ∀ log, a.diskOf { d with
      world := (a.disk.set d.world.1 (resultOf job (a.diskOf d)).2, log) } =
        (resultOf job (a.diskOf d)).2 := fun _ => hdisk _ _
  have hlater := hafter (d.log ++ [⟨.job, a.diskOf d, (resultOf job (a.diskOf d)).2⟩])
  exact ⟨Prod.ext hjob hlater.symm,
    congrArg (fun disk => d.log ++ [⟨.job, a.diskOf d, disk⟩]) hlater.symm, rfl, rfl⟩

/-- A call of the builder is recorded. -/
theorem follows_of_recording {cause : α → Cause} {act : World → α × World} {result : α}
    (h : Yields (inWorld (a.recording cause act)) d result d') : a.Follows (cause result) d d' := by
  rw [Yields, resultOf_inWorld, Prod.mk.injEq] at h
  obtain ⟨hresult, rfl⟩ := h
  cases hresult
  exact ⟨rfl, rfl, rfl⟩

theorem follows_of_build {package : String} {answer : Except Host.Error Printout}
    (h : Yields (inWorld (a.recorded.builder.build · package)) d answer d') :
    a.Follows (.build package (answer.toOption.bind Printout.workDir?)) d d' := by
  have hrecorded : Yields (inWorld (a.recording
      (fun answer => .build package (answer.toOption.bind Printout.workDir?))
      (a.builder.build · package))) d answer d' := h
  have hfollows := follows_of_recording hrecorded
  exact hfollows

/-- What spares the disk of a run advances it. -/
theorem Follows.advances {cause : Cause} (h : a.Follows cause d d')
    (hspares : cause = .job → Removes d.log ⟨cause, a.diskOf d, a.diskOf d'⟩) :
    a.Advances m d d' := by
  refine ⟨h.logged, h.report ▸ List.Subset.refl _, fun hquiet _ hreal => ?_⟩
  have hspared : a.Spares d.log ⟨cause, a.diskOf d, a.diskOf d'⟩ :=
    hquiet d.log _ [] h.log hspares
  constructor
  · exact hspared.grounded
  · rw [h.report, h.progress]
    exact hreal.known
  · rw [h.report, h.log]
    intro r hr
    obtain ⟨bytes, harchived, hread⟩ := hreal.held r hr
    exact ⟨bytes, harchived.append _, hspared.stored _ _ harchived hread⟩
  · rw [h.report, hspared.manifest]
    exact hreal.bound
  · rw [h.report]
    exact fun hne => (hreal.readable hne).imp fun bytes => hspared.readable bytes

/-! ## Archiving -/

theorem Follows.left {package work : String} {built : Disk} (h : a.Follows .job d d')
    (hleft : Left d.log package work built) : Left d'.log package work built := by
  obtain ⟨early, start, jobs, hlog, hjobs⟩ := hleft
  refine ⟨early, start, jobs ++ [⟨.job, a.diskOf d, a.diskOf d'⟩], ?_, fun deed hdeed => ?_⟩
  · rw [h.log, hlog, List.append_assoc, List.cons_append]
  · rcases List.mem_append.1 hdeed with hdeed | hdeed
    · exact hjobs deed hdeed
    · rw [List.mem_singleton.1 hdeed]

/-- Files that are written elsewhere leave everything real. -/
theorem Real.grown {places : List (List String)} (h : a.Real m d) (hnext : a.Follows .job d d')
    (hgrown : Disk.Grown places (a.diskOf d) (a.diskOf d'))
    (hfiles : ∀ r ∈ d.report.records, (a.diskOf d).placeOf (a.storeFile r.importPath) ∉ places)
    (hmanifest : (a.diskOf d).placeOf a.manifestPath ∉ places) : a.Real m d' where
  grounded := hgrown.grounded h.grounded
  known := by
    rw [hnext.report, hnext.progress]
    exact h.known
  held := by
    rw [hnext.report, hnext.log]
    intro r hr
    obtain ⟨bytes, harchived, hread⟩ := h.held r hr
    exact ⟨bytes, harchived.append _, hgrown.read hread (hfiles r hr)⟩
  bound := by
    rw [hnext.report, hgrown.placeOf, hgrown.contents _ hmanifest]
    exact h.bound
  readable := by
    rw [hnext.report]
    exact fun hne => (h.readable hne).imp fun bytes hread => hgrown.read hread hmanifest

variable {site name : String}

/-- An archive that is in the store is bound. -/
theorem Real.bind (h : a.Real m d) (hplaced : a.Placed site name) (hnext : a.Follows .job d d')
    {r : PackageRecord} {bytes : ByteArray} {u : Unit}
    (happend : Yields (Manifest.append a.manifestPath r) (a.diskOf d) u (a.diskOf d'))
    (hgood : ∀ r' ∈ d.report.records ++ [r], IsImportPath r'.importPath)
    (hstored : r.storedPath = a.storedPath r.importPath)
    (harchived : a.Archived d.log r.importPath bytes)
    (hread : (a.diskOf d).read (a.storeFile r.importPath) = .ok bytes) :
    a.Real m (d'.filed r) := by
  have hrecords : (d'.filed r).report.records = d.report.records ++ [r] := by
    rw [Draft.filed_records, hnext.report]
  obtain ⟨hgrown, hwritten⟩ := Job.appendLine_grown h.grounded happend
  have hapart : ∀ r' ∈ d.report.records ++ [r],
      (a.diskOf d).placeOf (a.storeFile r'.importPath) ∉ [(a.diskOf d).placeOf a.manifestPath] := by
    intro r' hr' hmem
    exact hplaced.manifest_ne _ _ (List.mem_singleton.1 hmem).symm
  constructor
  case grounded => exact hgrown.grounded h.grounded
  case known =>
    rw [hrecords, Draft.filed_archived, hnext.progress]
    intro r' hr'
    rcases List.mem_append.1 hr' with hold | hnew
    · exact (h.known r' hold).imp_left (List.mem_append_left _)
    · obtain rfl := List.mem_singleton.1 hnew
      exact ⟨List.mem_append_right _ (List.mem_singleton_self _), hstored⟩
  case held =>
    rw [hrecords]
    show ∀ r' ∈ d.report.records ++ [r], ∃ bytes, a.Archived d'.log r'.importPath bytes ∧
      (a.diskOf d').read (a.storeFile r'.importPath) = .ok bytes
    rw [hnext.log]
    intro r' hr'
    rcases List.mem_append.1 hr' with hold | hnew
    · obtain ⟨bytes', harchived', hread'⟩ := h.held r' hold
      exact ⟨bytes', harchived'.append _, hgrown.read hread' (hapart r' hr')⟩
    · obtain rfl := List.mem_singleton.1 hnew
      exact ⟨bytes, harchived.append _, hgrown.read hread (hapart r' hr')⟩
  case bound =>
    obtain ⟨m', hspells, hbound⟩ := h.bound
    have hi := hgood r (List.mem_append_right _ (List.mem_singleton_self _))
    refine ⟨m'.insert r.importPath (a.storedPath r.importPath), ?_, fun i => ?_⟩
    · show Manifest.Spells ((a.diskOf d').contentAt ((a.diskOf d').placeOf a.manifestPath)) _
      rw [Disk.contentAt_of_read hwritten, PackageRecord.line, hstored]
      exact hspells.append (hplaced.bindable hi)
    · rw [hrecords, List.map_append, List.map_singleton]
      exact Manifest.get?_insert_of_binds hbound r.importPath i
  case readable => exact fun _ => ⟨_, hwritten⟩

include hdisk in
/-- An archive that a build left is put into the store and bound, or it is there already. -/
theorem archiveOne_advances (hplaced : a.Placed site name)
    {package work importPath archive : String} {built : Disk} {w : WorkDir}
    (hleft : Left d.log package work built)
    (hscan : WorkDir.scan built work package = .ok w) (hmem : (importPath, archive) ∈ w.archives)
    {u : Unit} (h : Yields (a.recorded.archiveOne w importPath archive) d u d') :
    a.Advances m d d' ∧ Left d'.log package work built := by
  have hroute := a.recorded.archiveRoute w importPath archive d
  rw [show resultOf _ d = (.ok u, d') from h] at hroute
  cases hroute with
  | known => exact ⟨.refl _, hleft⟩
  | @filed d₁ d₂ d₃ hnew hparents hcopy happend =>
  obtain ⟨hparents, hnext₁⟩ := follows_of_onDisk hdisk hparents
  obtain ⟨hcopied, hnext₂⟩ := follows_of_onDisk hdisk hcopy
  obtain ⟨happend, hnext₃⟩ := follows_of_onDisk hdisk happend
  have hleft₁ := hnext₁.left hleft
  have hreport : d₃.report = d.report := hnext₃.report.trans (hnext₂.report.trans hnext₁.report)
  refine ⟨⟨?_, ?_, fun hquiet hgood hreal => ?_⟩, hnext₃.left (hnext₂.left hleft₁)⟩
  · show d.log <+: d₃.log
    rw [hnext₃.log, hnext₂.log, hnext₁.log, List.append_assoc, List.append_assoc]
    exact List.prefix_append _ _
  · rw [Draft.filed_records, hreport]
    exact List.subset_append_left _ _
  -- the directory is made, the archive is copied into it, and then it is bound
  have hi : IsImportPath importPath := hgood _ (List.mem_append_right _ (List.mem_singleton_self _))
  have hreal₁ : a.Real m d₁ := hreal.grown hnext₁
    ((Job.paves_makeParents _).grows hreal.grounded hparents) (by simp) (by simp)
  obtain ⟨content, hcontent, hgrown, hwritten⟩ := Job.copy_grown hreal₁.grounded hcopied
  have hreal₂ : a.Real m d₂ := by
    refine hreal₁.grown hnext₂ hgrown (fun r hr hmem => ?_) fun hmem => ?_
    · have hr' : IsImportPath r.importPath := by
        refine hgood r ?_
        rw [Draft.filed_records, hnext₃.report, hnext₂.report]
        exact List.mem_append_left _ hr
      have harchived : r.importPath ∈ d.progress.archived := by
        rw [← hnext₁.progress]
        exact (hreal₁.known r hr).1
      refine Placed.storeFile_ne hr' hi ?_ a _ (List.mem_singleton.1 hmem)
      rintro rfl
      exact hnew harchived
    · exact hplaced.manifest_ne _ _ (List.mem_singleton.1 hmem)
  have harchived : a.Archived d₂.log importPath _ :=
    ⟨archive, a.diskOf d₁, content, ⟨d₁.log, a.diskOf d₂, [], package, work, built, w, hnext₂.log,
      hleft₁, hscan, hmem, hcopied⟩, hcontent, rfl⟩
  refine hreal₂.bind hplaced hnext₃ happend (fun r hr => hgood r ?_) rfl harchived hwritten
  rwa [Draft.filed_records, hnext₃.report]

theorem Follows.advances_of_grown (h : a.Follows .job d d')
    (hgrown : (a.diskOf d).Grounded → Disk.Grown [] (a.diskOf d) (a.diskOf d')) :
    a.Advances m d d' where
  logged := h.logged
  reported := h.report ▸ List.Subset.refl _
  real _ _ hreal := hreal.grown h (hgrown hreal.grounded) (by simp) (by simp)

include hdisk in
theorem archiveAll_advances (hplaced : a.Placed site name) {package work : String}
    (hleft : Left d.log package work (a.diskOf d)) {u : Unit}
    (h : Yields (a.recorded.archiveAll work package) d u d') :
    a.Advances m d d' ∧ Left d'.log package work (a.diskOf d) := by
  obtain ⟨w, d₁, hscan, hrounds⟩ := rounds_archiveAll h
  obtain ⟨hscan, hnext⟩ := follows_of_onDisk hdisk hscan
  obtain ⟨hscan, hsame⟩ := Job.yields_ask_iff.1 hscan
  have hfirst : a.Advances m d d₁ := hnext.advances_of_grown fun _ => hsame ▸ .refl _
  refine hrounds.keeps (fun d' => a.Advances m d d' ∧ Left d'.log package work (a.diskOf d))
    ?_ ⟨hfirst, hnext.left hleft⟩
  rintro ⟨importPath, archive⟩ hmem d₂ ⟨⟩ d₃ ⟨hadvances, hleft₂⟩ hround
  obtain ⟨hadvances', hleft₃⟩ := archiveOne_advances hdisk hplaced hleft₂ hscan hmem hround
  exact ⟨hadvances.trans hadvances', hleft₃⟩

include hdisk in
/-- Removing a work directory that a build announced spares what is stored. -/
theorem discard_advances {package work : String} {start built : Disk}
    (hbuilt : ⟨.build package (some work), start, built⟩ ∈ d.log) {u : Unit}
    (h : Yields (a.recorded.discard work) d u d') : a.Advances m d d' := by
  obtain ⟨hremoves, hnext⟩ := follows_of_onDisk hdisk h
  exact hnext.advances fun _ => ⟨package, work, start, built, hbuilt, hremoves⟩

theorem failed_advances (d : Draft (Recorded World)) (package output : String) :
    a.Advances m d (d.failed package output) := advances_of_same rfl rfl rfl

include hdisk in
theorem buildPackage_advances (hplaced : a.Placed site name) {package : String} {u : Unit}
    (h : Yields (a.recorded.buildPackage package) d u d') : a.Advances m d d' := by
  have hcalled : ∀ {answer : Except Host.Error Printout} {d₁ : Draft (Recorded World)},
      Yields (inWorld (a.recorded.builder.build · package)) d answer d₁ → a.Advances m d d₁ :=
    fun hbuild => (follows_of_build hbuild).advances fun hjob => by cases hjob
  have hroute := a.recorded.buildRoute package d
  rw [show resultOf _ d = (.ok u, d') from h] at hroute
  cases hroute with
  | unannounced hbuild => exact (hcalled hbuild).trans (failed_advances _ _ _)
  | @unbuilt _ work _ d₁ d₂ hbuild _ hwork hdiscard =>
    have hbuilt : ⟨.build package (some work), a.diskOf d, a.diskOf d₁⟩ ∈ d₁.log :=
      hwork ▸ (follows_of_build hbuild).mem_log
    exact (hcalled hbuild).trans
      ((discard_advances hdisk hbuilt hdiscard).trans (failed_advances _ _ _))
  | @built _ work d₁ d₂ d₃ hbuild _ hwork harchive hdiscard =>
    have hleft : Left d₁.log package work (a.diskOf d₁) :=
      ⟨d.log, a.diskOf d, [], hwork ▸ (follows_of_build hbuild).log, by simp⟩
    obtain ⟨hadvances, hleft₂⟩ := archiveAll_advances hdisk hplaced hleft harchive
    obtain ⟨start, hmem⟩ := hleft₂.built_mem
    exact (hcalled hbuild).trans (hadvances.trans ((discard_advances hdisk hmem hdiscard).trans
      (advances_of_same rfl rfl rfl)))

include hdisk in
theorem process_advances (hplaced : a.Placed site name) {package : String} {u : Unit}
    (h : Yields (a.recorded.process package) d u d') : a.Advances m d d' := by
  rw [Yields, resultOf_process] at h
  split at h
  · obtain ⟨-, rfl⟩ := Prod.mk.inj h
    exact advances_of_same rfl rfl rfl
  · have htried : a.Advances m d (d.tried package) := advances_of_same rfl rfl rfl
    exact htried.trans (buildPackage_advances hdisk hplaced h)

/-- Looking for a package, and fetching it, is the builder's affair. -/
theorem ensureAvailable_advances {package : String} {result : Option String}
    (h : Yields (a.recorded.ensureAvailable package) d result d') : a.Advances m d d' := by
  have hcall : ∀ {β : Type} (act : World → β × World) {answer : β} {d d' : Draft (Recorded World)},
      Yields (inWorld (a.recording (fun _ => .call) act)) d answer d' → a.Advances m d d' :=
    fun _ _ _ _ hyields => (follows_of_recording hyields).advances (fun hjob => by cases hjob)
  have hroute := a.recorded.readyRoute package d
  rw [show resultOf _ d = (.ok result, d') from h] at hroute
  cases hroute with
  | unknown hthere | there hthere => exact hcall (a.builder.isAvailable · package) hthere
  | fetched hthere hfetch =>
    exact (hcall (a.builder.isAvailable · package) hthere).trans
      (hcall (a.builder.fetch · package) hfetch)

include hdisk in
theorem serve_advances (hplaced : a.Placed site name) {target : Target} {u : Unit}
    (h : Yields (a.recorded.serve target) d u d') : a.Advances m d d' := by
  cases target with
  | standard =>
    obtain ⟨packages, d₁, hlist, hrounds⟩ := rounds_standard h
    have hcalled : a.Advances m d d₁ := by
      have hlisted : Yields (inWorld (a.recording (fun _ => .call) a.builder.listStandard))
        d (.ok packages) d₁ := hlist
      exact (follows_of_recording hlisted).advances fun hjob => by cases hjob
    exact hrounds.keeps (a.Advances m d) (fun _ _ _ _ _ hadvances hprocess =>
      hadvances.trans (process_advances hdisk hplaced hprocess)) hcalled
  | package name =>
    obtain ⟨result, d₁, hready, hroute⟩ := yields_package h
    refine (ensureAvailable_advances hready).trans ?_
    rcases hroute with ⟨rfl, hprocess⟩ | ⟨output, rfl, rfl⟩
    · exact process_advances hdisk hplaced hprocess
    · exact failed_advances _ _ _

include hdisk in
/-- All steps of a run advance it. -/
theorem steps_advances (hplaced : a.Placed site name) {targets : List Target} {u : Unit}
    (h : Yields (a.recorded.steps targets) d u d') : a.Advances m d d' := by
  obtain ⟨d₁, hprepare, hrounds⟩ := rounds_steps h
  obtain ⟨hdirs, hnext⟩ := follows_of_onDisk hdisk hprepare
  have hprepared : a.Advances m d d₁ :=
    hnext.advances_of_grown fun hground => (Job.paves_makeDirs _).grows hground hdirs
  exact hrounds.keeps (a.Advances m d) (fun _ _ _ _ _ hadvances hserve =>
    hadvances.trans (serve_advances hdisk hplaced hserve)) hprepared

include hdisk in
/-- What a run reports is real once it has ended. -/
theorem real_of_run (hplaced : a.Placed site name) {targets : List Target}
    {progress progress' : Progress} {world world' : World} {report : Report}
    (hgrounded : (a.disk.get world).Grounded)
    (hspells : Manifest.Spells
      ((a.disk.get world).contentAt ((a.disk.get world).placeOf a.manifestPath)) m)
    (hrun : a.run targets progress world = (.ok report, progress', world'))
    (hgood : ∀ r ∈ report.records, IsImportPath r.importPath)
    (hquiet : a.Undisturbed (a.deeds targets progress world)) :
    a.Real m ⟨(world', a.deeds targets progress world), progress', report⟩ := by
  have hstart : a.Real m ⟨(world, []), progress, ⟨[], [], [], []⟩⟩ :=
    { grounded := hgrounded
      known := by simp
      held := by simp
      bound := ⟨m, hspells, by simp⟩
      readable := by simp }
  exact (steps_advances hdisk hplaced (exists_recorded hrun)).real hquiet hgood hstart

end Archivist

/-! ## Telling from a record

Whether the store was left alone can be told from a record, and so can what may have been copied
into it. The checks err on the safe side: they compare no more of a disk than its files. -/

/-- What the builds of a record have left: import paths with their archives. -/
def leftArchives (log : List Deed) : List (String × String) :=
  log.flatMap fun deed =>
    match deed.cause with
    | .build package (some work) =>
      ((WorkDir.scan deed.after work package).toOption.map WorkDir.archives).getD []
    | _ => []

/-- Whether what could be read at a path can be read there still. -/
def Deed.leaves (deed : Deed) (path : String) : Bool :=
  (deed.before.read path).toOption.all fun bytes =>
    (deed.after.read path).toOption.any (·.data = bytes.data)

/-- The files of a disk with their bytes. -/
def bytesByPath (d : Disk) : List (String × Option (Array UInt8)) :=
  (d.filesBelow "/").map fun (path, content) => (path, content.map ByteArray.data)

/-- Whether a deed leaves the files that a job would have left. -/
def Deed.mayBe (deed : Deed) (job : Job α) : Bool :=
  bytesByPath (resultOf job deed.before).2 = bytesByPath deed.after

/-- Whether a deed may be the removal of a work directory. -/
def mayRemove (early : List Deed) (deed : Deed) : Bool :=
  early.any fun build =>
    match build.cause with
    | .build _ (some work) => deed.mayBe (Job.attempt (Job.removeTree work))
    | _ => false

/-- Whether a deed leaves the manifest and the files of all archives that the builds have left. -/
def Archivist.isSpared (a : Archivist World) (early : List Deed) (deed : Deed) : Bool :=
  (deed.after.tree.get? deed.after.cwd).any Tree.isDir &&
    (leftArchives early).all (fun entry => deed.leaves (a.storeFile entry.1)) &&
    (deed.after.contentAt (deed.after.placeOf a.manifestPath)).data =
      (deed.before.contentAt (deed.before.placeOf a.manifestPath)).data &&
    deed.leaves a.manifestPath

/-- Whether all that was done after the early part of a record has left the store alone. -/
def Archivist.isUndisturbed (a : Archivist World) : List Deed → List Deed → Bool
  | _, [] => true
  | early, deed :: late =>
    (deed.cause = .job && !mayRemove early deed || a.isSpared early deed) &&
      a.isUndisturbed (early ++ [deed]) late

theorem Deed.read_of_leaves {deed : Deed} {path : String} (h : deed.leaves path = true)
    {bytes : ByteArray} (hread : deed.before.read path = .ok bytes) :
    deed.after.read path = .ok bytes := by
  rw [leaves, hread] at h
  obtain ⟨left, hleft, hsame⟩ := (Option.any_eq_true _ _).1 h
  rw [toOption_eq_some_iff.1 hleft, ByteArray.ext (of_decide_eq_true hsame)]

theorem Deed.mayBe_of_yields {deed : Deed} {job : Job α} {answer : α}
    (h : Yields job deed.before answer deed.after) : deed.mayBe job = true := by
  rw [mayBe, show resultOf job deed.before = (.ok answer, deed.after) from h]
  exact decide_eq_true rfl

/-- What was copied is among what the builds have left, and one of the deeds may have copied it. -/
theorem Archivist.Copied.exists_deed {a : Archivist World} {log : List Deed}
    {importPath archive : String} {before : Disk} (h : a.Copied log importPath archive before) :
    (importPath, archive) ∈ leftArchives log ∧ ∃ deed ∈ log, deed.before = before ∧
      deed.cause = .job ∧ deed.mayBe (Job.copy archive (a.storeFile importPath)) = true := by
  obtain ⟨early, after, late, package, work, built, w, rfl, hleft, hscan, hmem, hcopy⟩ := h
  obtain ⟨start, hbuilt⟩ := hleft.built_mem
  refine ⟨List.mem_flatMap.2 ⟨_, List.mem_append_left _ hbuilt, ?_⟩, ⟨.job, before, after⟩,
    List.mem_append_right _ List.mem_cons_self, rfl, rfl, Deed.mayBe_of_yields hcopy⟩
  dsimp only
  rw [hscan]
  exact hmem

theorem Removes.mayRemove {early : List Deed} {deed : Deed} (h : Removes early deed) :
    mayRemove early deed = true := by
  obtain ⟨package, work, start, built, hbuilt, hremoved⟩ := h
  exact List.any_eq_true.2 ⟨_, hbuilt, Deed.mayBe_of_yields hremoved⟩

/-- A deed that can be no removal, whatever was built before or after it, is none. -/
theorem not_removes_of_mayRemove {early late : List Deed} {deed : Deed}
    (h : mayRemove (early ++ late) deed = false) : ¬ Removes early deed := by
  intro hremoves
  obtain ⟨build, hbuild, hyes⟩ := List.any_eq_true.1 hremoves.mayRemove
  exact List.any_eq_false.1 h build (List.mem_append_left _ hbuild) hyes

namespace Archivist

theorem spares_of_isSpared {a : Archivist World} {early : List Deed} {deed : Deed}
    (h : a.isSpared early deed = true) : a.Spares early deed := by
  simp only [isSpared, Bool.and_eq_true, List.all_eq_true, decide_eq_true_eq] at h
  obtain ⟨⟨⟨hground, hstored⟩, hmanifest⟩, hreadable⟩ := h
  constructor
  case grounded =>
    rw [Disk.Grounded, Disk.shapeAt]
    rcases hnode : deed.after.tree.get? deed.after.cwd with - | ⟨data, mode⟩ | ⟨children, mode⟩
    · rw [hnode] at hground
      cases hground
    · rw [hnode] at hground
      cases hground
    · rfl
  case stored =>
    intro importPath bytes harchived
    obtain ⟨archive, before, content, hcopied, -⟩ := harchived
    exact Deed.read_of_leaves (hstored _ hcopied.exists_deed.1)
  case manifest => exact ByteArray.ext hmanifest
  case readable => exact fun _ => Deed.read_of_leaves hreadable

theorem spares_of_isUndisturbed {a : Archivist World} {first early late : List Deed} {deed : Deed}
    (h : a.isUndisturbed first (early ++ deed :: late) = true)
    (hremoves : deed.cause = .job → Removes (first ++ early) deed) :
    a.Spares (first ++ early) deed := by
  induction early generalizing first with
  | nil =>
    rw [List.append_nil] at hremoves ⊢
    simp only [List.nil_append, isUndisturbed, Bool.and_eq_true, Bool.or_eq_true,
      decide_eq_true_eq, Bool.not_eq_true'] at h
    rcases h.1 with ⟨hjob, hnot⟩ | hspared
    · rw [(hremoves hjob).mayRemove] at hnot
      cases hnot
    · exact spares_of_isSpared hspared
  | cons done early ih =>
    -- what is done first is early from then on
    rw [List.cons_append, isUndisturbed, Bool.and_eq_true] at h
    have hsplit : first ++ done :: early = first ++ [done] ++ early := by
      rw [List.append_assoc, List.singleton_append]
    rw [hsplit] at hremoves ⊢
    exact ih h.2 hremoves

theorem undisturbed_of_isUndisturbed {a : Archivist World} {log : List Deed}
    (h : a.isUndisturbed [] log = true) : a.Undisturbed log := by
  rintro early deed late rfl
  exact spares_of_isUndisturbed h

end Archivist

end Workbench.Package
