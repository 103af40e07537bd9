import Workbench.Proofs.Bookkeeping
import Workbench.Proofs.WorkDirScan

set_option autoImplicit false

/-! # What stays in a store

Over all runs of an archivist the store keeps what was put there first. As long as nobody else
touches it, each import path that was archived is bound in the manifest, and its file holds what the
archive held that a build named for it, namely the build in which it was archived. That is an
invariant of what is known and of what has been done, and every part of a run keeps it: a deed of
the builder by assumption, a job because it writes to no file but its own, and the filing of an
archive because its file is the one that is new. -/

namespace Workbench.Package

open Host (Disk Job)

variable {World : Type}

/-- The import paths that the builds of a record have named. -/
def leftPaths (log : List Deed) : List String := (leftArchives log).map Prod.fst

theorem mem_leftPaths {log : List Deed} {package work importPath archive : String} {built : Disk}
    {w : WorkDir} (hleft : Left log package work built)
    (hscan : WorkDir.scan built work package = .ok w) (hmem : (importPath, archive) ∈ w.archives) :
    importPath ∈ leftPaths log := by
  obtain ⟨start, hbuilt⟩ := hleft.built_mem
  refine List.mem_map.2 ⟨(importPath, archive), List.mem_flatMap.2 ⟨_, hbuilt, ?_⟩, rfl⟩
  dsimp only
  rw [hscan]
  exact hmem

theorem leftPaths_subset {log log' : List Deed} (h : log <+: log') :
    leftPaths log ⊆ leftPaths log' := by
  obtain ⟨more, rfl⟩ := h
  rw [leftPaths, leftPaths, leftArchives, leftArchives, List.flatMap_append, List.map_append]
  exact List.subset_append_left _ _

/-- Where stored bytes come from: an archive that a build named, the deed that copied it after some
    others, and the deed by which it was bound next. -/
structure Origin where
  package : String
  work : String
  built : Disk
  archive : String
  early : List Deed
  copied : Deed
  bound : Deed
  /-- What the archive held when it was copied. -/
  content : ByteArray

namespace Archivist

/-- The import paths that the builds of a record have named can stand in a manifest, their files are
    apart, and the manifest is none of them. -/
structure Nameable (a : Archivist World) (log : List Deed) : Prop where
  named : ∀ i ∈ leftPaths log, i ≠ ""
  solid : ∀ i ∈ leftPaths log, ∀ c ∈ i.toList, Text.isBlank c = false
  apart : ∀ deed ∈ log, ∀ i ∈ leftPaths log, ∀ j ∈ leftPaths log, i ≠ j →
    deed.before.placeOf (a.storeFile i) ≠ deed.before.placeOf (a.storeFile j)
  manifest : ∀ deed ∈ log, ∀ i ∈ leftPaths log,
    deed.before.placeOf a.manifestPath ≠ deed.before.placeOf (a.storeFile i)

theorem Nameable.earlier {a : Archivist World} {log log' : List Deed} (h : a.Nameable log')
    (hlog : log <+: log') : a.Nameable log where
  named i hi := h.named i (leftPaths_subset hlog hi)
  solid i hi := h.solid i (leftPaths_subset hlog hi)
  apart deed hdeed i hi j hj :=
    h.apart deed (hlog.subset hdeed) i (leftPaths_subset hlog hi) j (leftPaths_subset hlog hj)
  manifest deed hdeed i hi := h.manifest deed (hlog.subset hdeed) i (leftPaths_subset hlog hi)

/-- In a placed store, import paths of ordinary components can be told apart. -/
theorem Placed.nameable {a : Archivist World} {site name : String} (h : a.Placed site name)
    {log : List Deed} (hgood : ∀ i ∈ leftPaths log, IsImportPath i) : a.Nameable log where
  named i hi := by
    rintro rfl
    exact absurd ((hgood "" hi).proper "" (by decide)) (by decide)
  solid i hi := (hgood i hi).solid
  apart _ _ i hi j hj hne := Placed.storeFile_ne (hgood i hi) (hgood j hj) hne a _
  manifest _ _ i _ := h.manifest_ne i _

/-- For an import path of which no line was written before, the archive was copied that a build had
    named first, and then its line was written. The archive held what the build had left there,
    unless it is one of the files that are written for that build; if it was the file in the store
    itself, it was emptied. -/
structure Filed (a : Archivist World) (start : Disk) (o : Origin) (importPath : String)
    (bytes : ByteArray) : Prop where
  new : ∃ records, a.Appends [] start o.early o.copied.before records ∧
    importPath ∉ records.map (·.importPath)
  left : Left o.early o.package o.work o.built
  first : (WorkDir.named o.built o.work o.package).lookup importPath = some o.archive
  copied : o.copied.cause = .job ∧
    Yields (Job.copy o.archive (a.storeFile importPath)) o.copied.before () o.copied.after
  content : o.copied.before.read o.archive = .ok o.content
  asBuilt : ∃ w, WorkDir.scan o.built o.work o.package = .ok w ∧
    (o.built.placeOf o.archive ∉ (a.filesFor w).map o.built.placeOf →
      o.content = o.built.contentAt (o.built.placeOf o.archive))
  bytes : bytes =
    if o.copied.before.placeOf o.archive = o.copied.before.placeOf (a.storeFile importPath) then
      .empty else o.content
  bound : ∃ r, r.importPath = importPath ∧ a.Adds (o.early ++ [o.copied]) o.bound [r]

/-- The bytes that were stored for an import path when it was archived. -/
def Stored (a : Archivist World) (start : Disk) (log : List Deed) (importPath : String)
    (bytes : ByteArray) : Prop :=
  ∃ o late, log = o.early ++ o.copied :: o.bound :: late ∧ a.Filed start o importPath bytes

variable {a : Archivist World} {start : Disk} {known : Manifest} {log : List Deed}
  {importPath archive package work : String} {bytes : ByteArray} {built : Disk} {w : WorkDir}
  {d d' d₁ d₂ d₃ : Draft (Recorded World)} {cause : Cause}

theorem Stored.append (h : a.Stored start log importPath bytes) (more : List Deed) :
    a.Stored start (log ++ more) importPath bytes := by
  obtain ⟨o, late, rfl, hfiled⟩ := h
  exact ⟨o, late ++ more, by simp, hfiled⟩

theorem Stored.archived (h : a.Stored start log importPath bytes) :
    a.Archived log importPath bytes := by
  obtain ⟨⟨package, work, built, archive, early, ⟨cause, before, after⟩, bound, content⟩, late, rfl,
    hfiled⟩ := h
  obtain ⟨rfl, hcopy⟩ := hfiled.copied
  obtain ⟨w, hscan, -⟩ := hfiled.asBuilt
  exact ⟨archive, before, content, ⟨early, after, bound :: late, package, work, built, w, rfl,
    hfiled.left, hscan, (WorkDir.mem_archives_iff hscan).2 hfiled.first, hcopy⟩, hfiled.content,
    hfiled.bytes⟩

theorem Stored.named (h : a.Stored start log importPath bytes) : importPath ∈ leftPaths log := by
  obtain ⟨o, late, rfl, hfiled⟩ := h
  obtain ⟨w, hscan, -⟩ := hfiled.asBuilt
  exact leftPaths_subset (List.prefix_append _ _)
    (mem_leftPaths hfiled.left hscan ((WorkDir.mem_archives_iff hscan).2 hfiled.first))

/-! ## The invariant -/

/-- What is archived is stored and bound, and what is not is bound as before. -/
structure Kept (a : Archivist World) (start : Disk) (known : Manifest)
    (d : Draft (Recorded World)) : Prop where
  grounded : (a.diskOf d).Grounded
  lines : ∃ records, a.Appends [] start d.log (a.diskOf d) records ∧
    d.progress.archived = records.map (·.importPath)
  held : ∀ i ∈ d.progress.archived, ∃ bytes, a.Stored start d.log i bytes ∧
    (a.diskOf d).read (a.storeFile i) = .ok bytes
  bound : ∃ m, Manifest.Spells (a.manifestAt (a.diskOf d)) m ∧
    ∀ i, m.get? i = if i ∈ d.progress.archived then some (a.storedPath i) else known.get? i
  readable : d.progress.archived ≠ [] → ∃ bytes, (a.diskOf d).read a.manifestPath = .ok bytes

/-- A run goes on from a draft to another, and what is kept stays kept. -/
structure Keeps (a : Archivist World) (start : Disk) (known : Manifest)
    (d d' : Draft (Recorded World)) : Prop where
  logged : d.log <+: d'.log
  kept : a.Undisturbed d'.log → a.Nameable d'.log → a.Kept start known d → a.Kept start known d'

instance : IsPreorder (Draft (Recorded World)) (Keeps a start known) where
  refl _ := ⟨List.prefix_rfl, fun _ _ => id⟩
  trans _ _ _ h h' := by
    refine ⟨h.logged.trans h'.logged, fun hquiet hnames hkept => ?_⟩
    obtain ⟨more, hmore⟩ := h'.logged
    exact h'.kept hquiet hnames
      (h.kept (hmore ▸ hquiet).earlier (hnames.earlier h'.logged) hkept)

/-- Whether something is kept depends on what was done and on what is archived alone. -/
theorem Kept.congr (h : a.Kept start known d) (hworld : d'.world = d.world)
    (harchived : d'.progress.archived = d.progress.archived) : a.Kept start known d' := by
  have hlog : d'.log = d.log := congrArg Prod.snd hworld
  have hdisk : a.diskOf d' = a.diskOf d := by rw [diskOf, hworld, diskOf]
  constructor
  · rw [hdisk]
    exact h.grounded
  · rw [hdisk, hlog, harchived]
    exact h.lines
  · rw [hdisk, hlog, harchived]
    exact h.held
  · rw [hdisk, harchived]
    exact h.bound
  · rw [hdisk, harchived]
    exact h.readable

theorem keeps_of_same (hworld : d'.world = d.world)
    (harchived : d'.progress.archived = d.progress.archived) : a.Keeps start known d d' := by
  have hlog : d'.log = d.log := congrArg Prod.snd hworld
  exact ⟨hlog ▸ List.prefix_rfl, fun _ _ hkept => hkept.congr hworld harchived⟩

/-- What a deed has to leave as it is. -/
structure Untouching (a : Archivist World) (d d' : Draft (Recorded World)) : Prop where
  grounded : (a.diskOf d').Grounded
  stored : ∀ i ∈ d.progress.archived, ∀ bytes, a.Archived d.log i bytes →
    (a.diskOf d).read (a.storeFile i) = .ok bytes → (a.diskOf d').read (a.storeFile i) = .ok bytes
  manifest : a.manifestAt (a.diskOf d') = a.manifestAt (a.diskOf d)
  readable : ∀ bytes, (a.diskOf d).read a.manifestPath = .ok bytes →
    (a.diskOf d').read a.manifestPath = .ok bytes

/-- A deed that touches nothing of it keeps what is kept. -/
theorem Kept.follows (h : a.Kept start known d) (hnext : a.Follows cause d d')
    (hadds : a.Adds d.log ⟨cause, a.diskOf d, a.diskOf d'⟩ []) (huntouching : a.Untouching d d') :
    a.Kept start known d' where
  grounded := huntouching.grounded
  lines := by
    obtain ⟨records, happends, harchived⟩ := h.lines
    refine ⟨records, ?_, by rw [hnext.progress, harchived]⟩
    rw [hnext.log]
    have hone := happends.trans (.cons hadds .nil)
    rwa [List.append_nil, List.append_nil] at hone
  held := by
    rw [hnext.progress, hnext.log]
    intro i hi
    obtain ⟨bytes, hstored, hread⟩ := h.held i hi
    exact ⟨bytes, hstored.append _, huntouching.stored i hi bytes hstored.archived hread⟩
  bound := by
    rw [hnext.progress, huntouching.manifest]
    exact h.bound
  readable := by
    rw [hnext.progress]
    exact fun hne => (h.readable hne).imp huntouching.readable

/-- What the builder does, and the removal of its work directories, keeps what is kept. -/
theorem keeps_of_outside (h : a.Follows cause d d')
    (houtside : cause = .job → Removes d.log ⟨cause, a.diskOf d, a.diskOf d'⟩) :
    a.Keeps start known d d' := by
  refine ⟨h.logged, fun hquiet _ hkept => ?_⟩
  have hspared : a.Spares d.log ⟨cause, a.diskOf d, a.diskOf d'⟩ :=
    hquiet d.log _ [] h.log houtside
  exact hkept.follows h (.outside houtside) ⟨hspared.grounded,
    fun i _ bytes => hspared.stored i bytes, hspared.manifest, hspared.readable⟩

/-- Files that are written elsewhere keep what is kept. -/
theorem untouching_of_grown {places : List (List String)} (hgrounded : (a.diskOf d).Grounded)
    (hgrown : Disk.Grown places (a.diskOf d) (a.diskOf d'))
    (hfiles : ∀ i ∈ d.progress.archived, (a.diskOf d).placeOf (a.storeFile i) ∉ places)
    (hmanifest : (a.diskOf d).placeOf a.manifestPath ∉ places) : a.Untouching d d' where
  grounded := hgrown.grounded hgrounded
  stored i hi _ _ hread := hgrown.read hread (hfiles i hi)
  manifest := manifestAt_of_grown hgrown hmanifest
  readable _ hread := hgrown.read hread hmanifest

/-- A job that writes to no file keeps what is kept. -/
theorem keeps_of_growing (h : a.Follows .job d d')
    (hgrowing : Job.Growing [] (a.diskOf d) (a.diskOf d')) : a.Keeps start known d d' := by
  refine ⟨h.logged, fun _ _ hkept => ?_⟩
  have hgrown := hgrowing hkept.grounded
  exact hkept.follows h (.beside rfl (manifestAt_of_grown hgrown List.not_mem_nil))
    (untouching_of_grown hkept.grounded hgrown (by simp) (by simp))

/-- Copying an archive for an import path that is not archived keeps what is kept, even if it is
    refused half way. -/
theorem keeps_of_copied {result : Except Host.Error Unit}
    (hcopied : a.Does (Job.copy archive (a.storeFile importPath)) d result d')
    (hnew : importPath ∉ d.progress.archived) (hnamed : importPath ∈ leftPaths d.log) :
    a.Keeps start known d d' := by
  have hlog := hcopied.follows.logged
  refine ⟨hlog, fun _ hnames hkept => ?_⟩
  have hdeed := hcopied.follows.mem_log
  have hgrown := hcopied.growing (Job.growing_copy _ _) hkept.grounded
  refine hkept.follows hcopied.follows (hcopied.adds_copied hkept.grounded)
    (untouching_of_grown hkept.grounded hgrown (fun i hi hmem => ?_) fun hmem => ?_)
  · obtain ⟨bytes, hstored, -⟩ := hkept.held i hi
    refine hnames.apart _ hdeed i (leftPaths_subset hlog hstored.named) importPath
      (leftPaths_subset hlog hnamed) ?_ (List.mem_singleton.1 hmem)
    rintro rfl
    exact hnew hi
  · exact hnames.manifest _ hdeed importPath (leftPaths_subset hlog hnamed)
      (List.mem_singleton.1 hmem)

/-! ## Filing an archive -/

variable (hrooted : a.urlPrefix.toList.head? = some '/') (hline : '\n' ∉ a.urlPrefix.toList)

include hrooted hline in
/-- An archive that is in the store is bound. -/
theorem Kept.bind (h : a.Kept start known d) {r : PackageRecord}
    (hbound : a.Does (Manifest.append a.manifestPath r) d (.ok ()) d')
    (hstored : r.storedPath = a.storedPath r.importPath)
    (hnamed : r.importPath ∈ leftPaths d.log) (hnames : a.Nameable d'.log)
    (hadds : a.Adds d.log ⟨.job, a.diskOf d, a.diskOf d'⟩ [r])
    (hfiled : a.Stored start d'.log r.importPath bytes)
    (hread : (a.diskOf d).read (a.storeFile r.importPath) = .ok bytes) :
    a.Kept start known (d'.filed r) := by
  obtain ⟨hgrown, hwritten⟩ := Job.appendLine_grown h.grounded hbound.outcome
  have hlog := hbound.follows.logged
  have hdeed := hbound.follows.mem_log
  -- the manifest is none of the files of the store
  have hstays : ∀ {i : String} {bytes : ByteArray}, i ∈ leftPaths d.log →
      (a.diskOf d).read (a.storeFile i) = .ok bytes →
      (a.diskOf d').read (a.storeFile i) = .ok bytes := fun hi hread =>
    hgrown.read hread fun hmem => hnames.manifest _ hdeed _ (leftPaths_subset hlog hi)
      (List.mem_singleton.1 hmem).symm
  have harchived : (d'.filed r).progress.archived = d.progress.archived ++ [r.importPath] := by
    show d'.progress.archived ++ _ = _
    rw [hbound.follows.progress]
  constructor
  case grounded => exact hgrown.grounded h.grounded
  case lines =>
    obtain ⟨records, happends, hrecords⟩ := h.lines
    refine ⟨records ++ [r], ?_, by rw [harchived, hrecords, List.map_append, List.map_singleton]⟩
    show a.Appends [] start d'.log (a.diskOf d') _
    rw [hbound.follows.log]
    exact happends.trans (.cons hadds .nil)
  case held =>
    rw [harchived]
    intro i hi
    show ∃ bytes, a.Stored start d'.log i bytes ∧ (a.diskOf d').read (a.storeFile i) = .ok bytes
    rcases List.mem_append.1 hi with hold | hself
    · obtain ⟨bytes', hstored', hread'⟩ := h.held i hold
      refine ⟨bytes', ?_, hstays hstored'.named hread'⟩
      rw [hbound.follows.log]
      exact hstored'.append _
    · obtain rfl := List.mem_singleton.1 hself
      exact ⟨bytes, hfiled, hstays hnamed hread⟩
  case bound =>
    obtain ⟨m, hspells, hbinds⟩ := h.bound
    have hbindable : Manifest.Bindable r.importPath (a.storedPath r.importPath) :=
      bindable_storedPath hrooted hline (hnames.named _ (leftPaths_subset hlog hnamed))
        (hnames.solid _ (leftPaths_subset hlog hnamed))
    refine ⟨m.insert r.importPath (a.storedPath r.importPath), ?_, fun i => ?_⟩
    · show Manifest.Spells (a.manifestAt (a.diskOf d')) _
      have hbytes : a.manifestAt (a.diskOf d') = _ := Disk.contentAt_of_read hwritten
      rw [hbytes, PackageRecord.line, hstored]
      exact hspells.append hbindable
    · rw [harchived]
      exact Manifest.get?_insert_of_binds hbinds r.importPath i
  case readable => exact fun _ => ⟨_, hwritten⟩

include hrooted hline in
/-- An archive that a build has left is put into the store and bound. -/
theorem keeps_of_filed (hleft : Left d₁.log package work built)
    (hscan : WorkDir.scan built work package = .ok w) (hmem : (importPath, archive) ∈ w.archives)
    (hsince : Job.Growing (a.filesFor w) built (a.diskOf d₁))
    (hnew : importPath ∉ d₁.progress.archived)
    (hcopied : a.Does (Job.copy archive (a.storeFile importPath)) d₁ (.ok ()) d₂)
    (hbound : a.Does (Manifest.append a.manifestPath (a.recordOf w importPath)) d₂ (.ok ()) d₃) :
    a.Keeps start known d₁ (d₃.filed (a.recordOf w importPath)) := by
  have hnamed := mem_leftPaths hleft hscan hmem
  have hlog₂ := hcopied.follows.logged
  have hlog₃ : d₂.log <+: d₃.log := hbound.follows.logged
  refine ⟨hlog₂.trans hlog₃, fun hquiet hnames hkept => ?_⟩
  have hquiet₃ : a.Undisturbed d₃.log := hquiet
  have hnames₃ : a.Nameable d₃.log := hnames
  have hquiet₂ : a.Undisturbed d₂.log := by
    obtain ⟨more, hmore⟩ := hlog₃
    exact (hmore ▸ hquiet₃).earlier
  have hkept₂ : a.Kept start known d₂ :=
    (keeps_of_copied hcopied hnew hnamed).kept hquiet₂ (hnames₃.earlier hlog₃) hkept
  obtain ⟨content, hcontent, -, hread⟩ := Job.copy_grown hkept.grounded hcopied.outcome
  obtain ⟨-, hwritten⟩ := Job.appendLine_grown hkept₂.grounded hbound.outcome
  have harchived : a.Archived d₂.log importPath _ :=
    ⟨archive, a.diskOf d₁, content, ⟨d₁.log, a.diskOf d₂, [], package, work, built, w,
      hcopied.follows.log, hleft, hscan, hmem, hcopied.outcome⟩, hcontent, rfl⟩
  have hadds : a.Adds d₂.log ⟨.job, a.diskOf d₂, a.diskOf d₃⟩ [a.recordOf w importPath] :=
    .line rfl rfl harchived hread (Disk.contentAt_of_read hwritten)
  have hasBuilt : built.placeOf archive ∉ (a.filesFor w).map built.placeOf →
      content = built.contentAt (built.placeOf archive) := by
    intro haway
    -- what the build has left was spared, and since then it was only added to
    obtain ⟨early, before, jobs, hsplit, -⟩ := hleft
    have hbuilt : built.Grounded := by
      have hspared : a.Spares early ⟨.build package (some work), before, built⟩ := by
        refine hquiet₂ early _ (jobs ++ [⟨.job, a.diskOf d₁, a.diskOf d₂⟩]) ?_ fun hjob => ?_
        · rw [hcopied.follows.log, hsplit, List.append_assoc, List.cons_append]
        · cases hjob
      exact hspared.grounded
    have hgrown := hsince hbuilt
    rw [← hgrown.contents _ haway, ← hgrown.placeOf, Disk.contentAt_of_read hcontent]
  refine hkept₂.bind hrooted hline hbound rfl (leftPaths_subset hlog₂ hnamed) hnames₃ hadds ?_ hread
  obtain ⟨records, happends, hrecords⟩ := hkept.lines
  refine ⟨⟨package, work, built, archive, d₁.log, ⟨.job, a.diskOf d₁, a.diskOf d₂⟩,
    ⟨.job, a.diskOf d₂, a.diskOf d₃⟩, content⟩, [], ?_, ?_⟩
  · rw [hbound.follows.log, hcopied.follows.log, List.append_assoc, List.singleton_append]
  · constructor
    case new => exact ⟨records, happends, hrecords ▸ hnew⟩
    case left => exact hleft
    case first => exact (WorkDir.mem_archives_iff hscan).1 hmem
    case copied => exact ⟨rfl, hcopied.outcome⟩
    case content => exact hcontent
    case asBuilt => exact ⟨w, hscan, hasBuilt⟩
    case bytes => rfl
    case bound => exact ⟨_, rfl, hcopied.follows.log ▸ hadds⟩

include hrooted hline in
theorem Filing.keeps {outcome : Except Host.Error Unit × Draft (Recorded World)}
    (h : a.Filing w importPath archive d outcome) (hleft : Left d.log package work built)
    (hscan : WorkDir.scan built work package = .ok w) (hmem : (importPath, archive) ∈ w.archives)
    (hsince : Job.Growing (a.filesFor w) built (a.diskOf d)) :
    a.Keeps start known d outcome.2 := by
  have hparents : ∀ {result : Except Host.Error Unit} {d₁ : Draft (Recorded World)},
      a.Does (Job.makeParents (a.storeFile importPath)) d result d₁ → a.Keeps start known d d₁ :=
    fun hplaced => keeps_of_growing hplaced.follows
      (hplaced.growing ((Job.paves_makeParents _).growing []))
  have hcopy : ∀ {result result' : Except Host.Error Unit} {d₁ d₂ : Draft (Recorded World)},
      importPath ∉ d.progress.archived →
      a.Does (Job.makeParents (a.storeFile importPath)) d result d₁ →
      a.Does (Job.copy archive (a.storeFile importPath)) d₁ result' d₂ →
      a.Keeps start known d d₂ := by
    intro result result' d₁ d₂ hnew hplaced hcopied
    refine trans_of (a.Keeps start known) (hparents hplaced) (keeps_of_copied hcopied ?_ ?_)
    · rwa [hplaced.follows.progress]
    · exact mem_leftPaths (hplaced.toiled.left hleft) hscan hmem
  cases h with
  | known => exact refl_of (a.Keeps start known) d
  | unplaced _ hplaced => exact hparents hplaced
  | uncopied hnew hplaced hcopied => exact hcopy hnew hplaced hcopied
  | unbound hnew hplaced hcopied hbound =>
    exact trans_of (a.Keeps start known) (hcopy hnew hplaced hcopied)
      (keeps_of_growing hbound.follows (Job.growing_of_fails_appendLine hbound.outcome))
  | filed hnew hplaced hcopied hbound =>
    refine trans_of (a.Keeps start known) (hparents hplaced) (keeps_of_filed hrooted hline
      (hplaced.toiled.left hleft) hscan hmem ?_ ?_ hcopied hbound)
    · exact trans_of (Job.Growing (a.filesFor w)) hsince
        (hplaced.growing ((Job.paves_makeParents _).growing _))
    · rwa [hplaced.follows.progress]

/-! ## Whole runs -/

include hrooted hline in
/-- All parts of a run keep what is kept. -/
theorem parts_keeps (start : Disk) (known : Manifest) : a.Parts (a.Keeps start known) where
  prepared hdoes :=
    keeps_of_growing hdoes.follows (hdoes.growing ((Job.paves_makeDirs _).growing []))
  called hcalled := keeps_of_outside hcalled fun hjob => by cases hjob
  noted hworld hprogress _ := keeps_of_same hworld (by rw [hprogress])
  asked {d d' package work?} _ _ hasked := by
    have htried : a.Keeps start known d (d.tried package) := keeps_of_same rfl rfl
    exact trans_of (a.Keeps start known) htried (keeps_of_outside hasked fun hjob => by cases hjob)
  read hdoes := keeps_of_growing hdoes.follows (hdoes.growing (Job.growing_ask [] _))
  archived hleft hscan hmem hsince hfiling := hfiling.keeps hrooted hline hleft hscan hmem hsince
  removed hbuilt hdoes :=
    keeps_of_outside hdoes.follows fun _ => ⟨_, _, _, _, hbuilt, hdoes.outcome⟩

/-- Before any run, the manifest binds what it bound. -/
theorem kept_fresh {world : World} (hgrounded : (a.disk.get world).Grounded)
    (hspells : Manifest.Spells (a.manifestAt (a.disk.get world)) known) :
    a.Kept (a.disk.get world) known (.fresh (world, []) ⟨[], []⟩) where
  grounded := hgrounded
  lines := ⟨[], .nil, rfl⟩
  held _ hi := absurd hi List.not_mem_nil
  bound := ⟨known, hspells, fun _ => (if_neg List.not_mem_nil).symm⟩
  readable hne := absurd rfl hne

variable (hdisk : ∀ w d, a.disk.get (a.disk.set w d) = d)

include hrooted hline hdisk in
/-- After any number of runs, what is archived is stored and bound. -/
theorem kept_of_runs {calls : List (List Target)} {world world' : World}
    {results : List (Except Host.Error Report)} {progress : Progress}
    (hgrounded : (a.disk.get world).Grounded)
    (hspells : Manifest.Spells (a.manifestAt (a.disk.get world)) known)
    (hruns : a.recorded.runs calls ⟨[], []⟩ (world, []) =
      (results, progress, world', a.history calls world))
    (hquiet : a.Undisturbed (a.history calls world)) (hnames : a.Nameable (a.history calls world)) :
    a.Kept (a.disk.get world) known (.fresh (world', a.history calls world) progress) := by
  have hkeeps := keeps_of_runs (a := a.recorded)
    (fun _ progress world' => a.Keeps (a.disk.get world) known
      (.fresh (world, []) ⟨[], []⟩) (.fresh world' progress))
    (fun results progress world' targets h => ?_) (refl_of (a.Keeps _ known) _) calls
  · rw [hruns] at hkeeps
    exact hkeeps.kept hquiet hnames (kept_fresh hgrounded hspells)
  · have hrun := (parts_keeps hrooted hline (a.disk.get world) known).steps hdisk targets
      (.fresh world' progress)
    refine trans_of (a.Keeps _ known) (trans_of (a.Keeps _ known) h hrun) ?_
    rw [run_fresh]
    exact keeps_of_same rfl rfl

end Archivist

end Workbench.Package
