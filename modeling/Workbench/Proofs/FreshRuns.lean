import Workbench.Proofs.Accounting
import Workbench.Proofs.Answers
import Workbench.Proofs.KeptStore

set_option autoImplicit false

/-! # Runs that know of nothing

An archivist who begins anew does not know what is in the store, and archives and binds again what
the builder names. So the manifest, which is only appended to, repeats its lines; but as the last
line of an import path holds and stands in the place of the first, what is read from it depends on
nothing but the import paths that were bound, and on which of them came first. Where the answers of
the builder depend on the package alone, so do these on the targets: the runs may be repeated, and
their order matters for the order of the bindings alone. -/

namespace Workbench.Package

open Host (Disk Job)

variable {World : Type}

/-- All records of several reports. -/
def recordsOf (reports : List Report) : List PackageRecord := reports.flatMap (·.records)

theorem recordsOf_cons (report : Report) (reports : List Report) :
    recordsOf (report :: reports) = report.records ++ recordsOf reports :=
  List.flatMap_cons

theorem recordsOf_append (reports reports' : List Report) :
    recordsOf (reports ++ reports') = recordsOf reports ++ recordsOf reports' :=
  List.flatMap_append

namespace Archivist

/-- Run through several lists of targets, each time knowing of nothing. -/
def afresh (a : Archivist World) : List (List Target) → World →
    List (Except Host.Error Report) × World
  | [], world => ([], world)
  | targets :: calls, world =>
    let (result, _, world) := a.run targets ⟨[], []⟩ world
    let (results, world) := a.afresh calls world
    (result :: results, world)

theorem Shadows.afresh {Shadow : Type} {f : World → Shadow} {a : Archivist World}
    {b : Archivist Shadow} (h : Shadows f a b) (calls : List (List Target)) (world : World) :
    b.afresh calls (f world) = ((a.afresh calls world).1, f (a.afresh calls world).2) := by
  induction calls generalizing world with
  | nil => rfl
  | cons targets calls ih =>
    rw [Archivist.afresh, h.run]
    dsimp only
    rw [ih]
    rfl

/-- What is done in such runs. -/
def trail (a : Archivist World) (calls : List (List Target)) (world : World) : List Deed :=
  (a.recorded.afresh calls (world, [])).2.2

/-- What is heard in such runs. -/
def overheard (a : Archivist World) (calls : List (List Target)) (world : World) : List Heard :=
  (a.attentive.afresh calls (world, [])).2.2

variable {a : Archivist World} {calls : List (List Target)} {targets : List Target}
  {report : Report} {reports : List Report}

/-- What goes through goes through run by run. -/
theorem afresh_cons_eq_ok {world world' : World}
    (h : a.afresh (targets :: calls) world = (reports.map .ok, world')) :
    ∃ report rest progress world₁, reports = report :: rest ∧
      a.run targets ⟨[], []⟩ world = (.ok report, progress, world₁) ∧
      a.afresh calls world₁ = (rest.map .ok, world') := by
  rw [afresh] at h
  rcases hrun : a.run targets ⟨[], []⟩ world with ⟨result, progress, world₁⟩
  rcases hrest : a.afresh calls world₁ with ⟨results, world₂⟩
  rw [hrun] at h
  dsimp only at h
  rw [hrest] at h
  obtain ⟨hresults, rfl⟩ := Prod.mk.inj h
  obtain ⟨report, rest, rfl, rfl, rfl⟩ := List.map_eq_cons_iff.1 hresults.symm
  exact ⟨report, rest, progress, world₁, rfl, rfl, hrest⟩

/-! ## What the manifest comes to -/

/-- In a stretch of deeds, neither the builder nor the removal of a work directory changes the
    manifest, which is no file for an archive that was named. -/
structure Unwritten (a : Archivist World) (log : List Deed) : Prop extends
    a.LeavesManifest [] log where
  readable : ∀ early deed late, log = early ++ deed :: late →
    (deed.cause = .job → Removes early deed) →
    ∀ bytes, deed.before.read a.manifestPath = .ok bytes →
      deed.after.read a.manifestPath = .ok bytes
  apart : ∀ deed ∈ log, ∀ i ∈ leftPaths log,
    deed.before.placeOf a.manifestPath ≠ deed.before.placeOf (a.storeFile i)

/-- From one disk to another, the manifest has grown by the lines of records. -/
structure Lengthens (a : Archivist World) (records : List PackageRecord) (disk disk' : Disk) :
    Prop where
  bytes : a.manifestAt disk' = a.manifestAt disk ++ (linesText records).toUTF8
  readable : (∃ bytes, disk.read a.manifestPath = .ok bytes) ∨ records ≠ [] →
    ∃ bytes, disk'.read a.manifestPath = .ok bytes

/-- What is new in the report of a run is new in its manifest, which is all that is new there if
    nobody else has changed it. -/
structure Inscribes (a : Archivist World) (records : List PackageRecord)
    (d d' : Draft (Recorded World)) : Prop where
  logged : d.log <+: d'.log
  reported : d'.report.records = d.report.records ++ records
  stored : ∀ r ∈ records, r.storedPath = a.storedPath r.importPath
  lengthens : a.Unwritten d'.log → a.Lengthens records (a.diskOf d) (a.diskOf d')

/-- What a run reports it has inscribed. -/
def Inscribed (a : Archivist World) (d d' : Draft (Recorded World)) : Prop :=
  ∃ records, a.Inscribes records d d'

variable {records records' : List PackageRecord} {disk disk' disk'' : Disk}
  {d d' d'' d₁ d₂ d₃ : Draft (Recorded World)} {log log' : List Deed} {cause : Cause}

theorem Unwritten.earlier (h : a.Unwritten log') (hlog : log <+: log') : a.Unwritten log := by
  obtain ⟨more, rfl⟩ := hlog
  have hlonger : ∀ {early deed late}, log = early ++ deed :: late →
      log ++ more = early ++ deed :: (late ++ more) := by
    rintro early deed late rfl
    simp
  exact
    { grounded deed hdeed := h.grounded deed (List.mem_append_left _ hdeed)
      kept early deed late hsplit := h.kept early deed _ (hlonger hsplit)
      readable early deed late hsplit := h.readable early deed _ (hlonger hsplit)
      apart deed hdeed i hi := h.apart deed (List.mem_append_left _ hdeed) i
        (leftPaths_subset (List.prefix_append _ _) hi) }

theorem Lengthens.trans (h : a.Lengthens records disk disk')
    (h' : a.Lengthens records' disk' disk'') : a.Lengthens (records ++ records') disk disk'' where
  bytes := by
    rw [h'.bytes, h.bytes, linesText_append, ByteArray.append_assoc]
    exact congrArg (_ ++ ·) String.toByteArray_append.symm
  readable hor := by
    refine h'.readable ?_
    by_cases hrecords : records = []
    · subst hrecords
      exact hor.imp_left fun hread => h.readable (.inl hread)
    · exact .inl (h.readable (.inr hrecords))

theorem lengthens_nil (hbytes : a.manifestAt disk' = a.manifestAt disk)
    (hreadable : ∀ bytes, disk.read a.manifestPath = .ok bytes →
      disk'.read a.manifestPath = .ok bytes) : a.Lengthens [] disk disk' where
  bytes := by simp [hbytes, linesText]
  readable hor := by
    obtain ⟨bytes, hread⟩ := hor.resolve_right (by simp)
    exact ⟨bytes, hreadable bytes hread⟩

theorem lengthens_of_grown {places : List (List String)} (h : Disk.Grown places disk disk')
    (haway : disk.placeOf a.manifestPath ∉ places) : a.Lengthens [] disk disk' :=
  lengthens_nil (manifestAt_of_grown h haway) fun _ hread => h.read hread haway

theorem inscribes_of_same (hworld : d'.world = d.world)
    (hrecords : d'.report.records = d.report.records) : a.Inscribes [] d d' where
  logged := by rw [Draft.log, Draft.log, hworld]
  reported := by rw [hrecords, List.append_nil]
  stored _ hr := absurd hr List.not_mem_nil
  lengthens _ := by
    rw [diskOf, diskOf, hworld]
    exact lengthens_nil rfl fun _ => id

theorem Inscribes.trans (h : a.Inscribes records d d') (h' : a.Inscribes records' d' d'') :
    a.Inscribes (records ++ records') d d'' where
  logged := h.logged.trans h'.logged
  reported := by rw [h'.reported, h.reported, List.append_assoc]
  stored r hr := (List.mem_append.1 hr).elim (h.stored r) (h'.stored r)
  lengthens hunwritten :=
    (h.lengthens (hunwritten.earlier h'.logged)).trans (h'.lengthens hunwritten)

instance : IsPreorder (Draft (Recorded World)) (Inscribed a) where
  refl _ := ⟨[], inscribes_of_same rfl rfl⟩
  trans _ _ _ := fun ⟨_, h⟩ ⟨_, h'⟩ => ⟨_, h.trans h'⟩

theorem Follows.inscribes (h : a.Follows cause d d')
    (hlengthens : a.Unwritten d'.log → a.Lengthens [] (a.diskOf d) (a.diskOf d')) :
    a.Inscribes [] d d' where
  logged := h.logged
  reported := by rw [h.report, List.append_nil]
  stored _ hr := absurd hr List.not_mem_nil
  lengthens := hlengthens

/-- The builder, and the removal of a work directory, are no writers. -/
theorem inscribes_of_outside (h : a.Follows cause d d')
    (houtside : cause = .job → Removes d.log ⟨cause, a.diskOf d, a.diskOf d'⟩) :
    a.Inscribes [] d d' := by
  refine h.inscribes fun hunwritten => ?_
  let deed : Deed := ⟨cause, a.diskOf d, a.diskOf d'⟩
  have hkept : a.manifestAt deed.after = a.manifestAt deed.before :=
    hunwritten.kept d.log deed [] h.log houtside
  exact lengthens_nil hkept (hunwritten.readable d.log deed [] h.log houtside)

theorem inscribes_of_growing (h : a.Follows .job d d')
    (hgrowing : Job.Growing [] (a.diskOf d) (a.diskOf d')) : a.Inscribes [] d d' :=
  h.inscribes fun hunwritten =>
    lengthens_of_grown (hgrowing (hunwritten.grounded _ h.mem_log)) List.not_mem_nil

theorem inscribes_of_copied {importPath archive : String} {result : Except Host.Error Unit}
    (h : a.Does (Job.copy archive (a.storeFile importPath)) d result d')
    (hnamed : importPath ∈ leftPaths d.log) : a.Inscribes [] d d' := by
  refine h.follows.inscribes fun hunwritten => ?_
  have hdeed := h.follows.mem_log
  refine lengthens_of_grown (h.growing (Job.growing_copy _ _) (hunwritten.grounded _ hdeed)) ?_
  exact fun hmem => hunwritten.apart _ hdeed importPath (leftPaths_subset h.follows.logged hnamed)
    (List.mem_singleton.1 hmem)

/-- A line is appended. -/
theorem inscribes_of_bound {r : PackageRecord} (hstored : r.storedPath = a.storedPath r.importPath)
    (h : a.Does (Manifest.append a.manifestPath r) d (.ok ()) d') :
    a.Inscribes [r] d (d'.filed r) where
  logged := h.follows.logged
  reported := by
    show d'.report.records ++ [r] = _
    rw [h.follows.report]
  stored r' hr' := by
    rw [List.mem_singleton.1 hr']
    exact hstored
  lengthens hunwritten := by
    have hgrounded := hunwritten.grounded _ h.follows.mem_log
    obtain ⟨-, hwritten⟩ := Job.appendLine_grown hgrounded h.outcome
    have hone : linesText [r] = r.line ++ "\n" := String.empty_append
    refine ⟨?_, fun _ => ⟨_, hwritten⟩⟩
    rw [hone]
    exact Disk.contentAt_of_read hwritten

theorem Filing.inscribed {package work importPath archive : String} {built : Disk} {w : WorkDir}
    {outcome : Except Host.Error Unit × Draft (Recorded World)}
    (h : a.Filing w importPath archive d outcome) (hleft : Left d.log package work built)
    (hscan : WorkDir.scan built work package = .ok w) (hmem : (importPath, archive) ∈ w.archives) :
    a.Inscribed d outcome.2 := by
  have hparents : ∀ {result : Except Host.Error Unit} {d₁ : Draft (Recorded World)},
      a.Does (Job.makeParents (a.storeFile importPath)) d result d₁ → a.Inscribes [] d d₁ :=
    fun hplaced => inscribes_of_growing hplaced.follows
      (hplaced.growing ((Job.paves_makeParents _).growing []))
  have hcopy : ∀ {result result' : Except Host.Error Unit} {d₁ d₂ : Draft (Recorded World)},
      a.Does (Job.makeParents (a.storeFile importPath)) d result d₁ →
      a.Does (Job.copy archive (a.storeFile importPath)) d₁ result' d₂ → a.Inscribes [] d d₂ :=
    fun hplaced hcopied => (hparents hplaced).trans (inscribes_of_copied hcopied
      (mem_leftPaths (hplaced.toiled.left hleft) hscan hmem))
  cases h with
  | known => exact refl_of a.Inscribed d
  | unplaced _ hplaced => exact ⟨_, hparents hplaced⟩
  | uncopied _ hplaced hcopied => exact ⟨_, hcopy hplaced hcopied⟩
  | unbound _ hplaced hcopied hbound =>
    exact ⟨_, (hcopy hplaced hcopied).trans
      (inscribes_of_growing hbound.follows (Job.growing_of_fails_appendLine hbound.outcome))⟩
  | filed _ hplaced hcopied hbound =>
    exact ⟨_, (hcopy hplaced hcopied).trans (inscribes_of_bound rfl hbound)⟩

/-- All that a run reports it has inscribed. -/
theorem parts_inscribed (a : Archivist World) : a.Parts a.Inscribed where
  prepared hdoes :=
    ⟨_, inscribes_of_growing hdoes.follows (hdoes.growing ((Job.paves_makeDirs _).growing []))⟩
  called hcalled := ⟨_, inscribes_of_outside hcalled fun hjob => by cases hjob⟩
  noted hworld _ hrecords := ⟨_, inscribes_of_same hworld hrecords⟩
  asked {d d' package work?} _ _ hasked := by
    have htried : a.Inscribes [] d (d.tried package) := inscribes_of_same rfl rfl
    exact ⟨_, htried.trans (inscribes_of_outside hasked fun hjob => by cases hjob)⟩
  read hdoes := ⟨_, inscribes_of_growing hdoes.follows (hdoes.growing (Job.growing_ask [] _))⟩
  archived hleft hscan hmem _ hfiling := hfiling.inscribed hleft hscan hmem
  removed hbuilt hdoes :=
    ⟨_, inscribes_of_outside hdoes.follows fun _ => ⟨_, _, _, _, hbuilt, hdoes.outcome⟩⟩

variable (hdisk : ∀ w d, a.disk.get (a.disk.set w d) = d)

include hdisk in
/-- Runs that go through leave the lines of all that they report. -/
theorem lengthens_of_afresh {w w' : Recorded World}
    (h : a.recorded.afresh calls w = (reports.map .ok, w')) :
    w.2 <+: w'.2 ∧ (∀ r ∈ recordsOf reports, r.storedPath = a.storedPath r.importPath) ∧
      (a.Unwritten w'.2 →
        a.Lengthens (recordsOf reports) (a.disk.get w.1) (a.disk.get w'.1)) := by
  induction calls generalizing reports w with
  | nil =>
    obtain ⟨hreports, rfl⟩ := Prod.mk.inj h
    obtain rfl := List.map_eq_nil_iff.1 hreports.symm
    exact ⟨List.prefix_rfl, by simp [recordsOf], fun _ => lengthens_nil rfl fun _ => id⟩
  | cons targets calls ih =>
    obtain ⟨report, rest, progress, w₁, rfl, hrun, hrest⟩ := afresh_cons_eq_ok h
    obtain ⟨hlogged, hstored, hlengthens⟩ := ih hrest
    obtain ⟨records, hinscribes⟩ := (parts_inscribed a).steps hdisk targets (.fresh w ⟨[], []⟩)
    rcases hsteps : resultOf (a.recorded.steps targets) (.fresh w ⟨[], []⟩) with ⟨e | ⟨⟩, d⟩ <;>
      rw [run_fresh, hsteps] at hrun <;> rw [hsteps] at hinscribes
    · cases hrun
    cases hrun
    have hrecords : d.report.records = records := hinscribes.reported
    rw [recordsOf_cons, hrecords]
    refine ⟨hinscribes.logged.trans hlogged, fun r hr => ?_, fun hunwritten => ?_⟩
    · exact (List.mem_append.1 hr).elim (hinscribes.stored r) (hstored r)
    · exact (hinscribes.lengthens (hunwritten.earlier hlogged)).trans (hlengthens hunwritten)

/-! ## Which import paths are bound -/

include hdisk in
/-- What an archivist who knew of nothing knows to be archived is what was reported. -/
theorem archived_of_run {world world' : World} {progress : Progress}
    (h : a.run targets ⟨[], []⟩ world = (.ok report, progress, world')) :
    progress.archived = report.records.map (·.importPath) := by
  obtain ⟨new, records, hbooks⟩ := (parts_booked a).steps hdisk targets
    (.fresh (world, []) ⟨[], []⟩)
  rw [show resultOf _ _ = _ from exists_recorded h] at hbooks
  have hreported : report.records = records := hbooks.reported
  have harchived : progress.archived = records.map (·.importPath) := hbooks.archived
  rw [harchived, hreported]

include hdisk in
/-- Runs that go through report what is planned, if all that is heard is what the table says. -/
theorem planned_of_afresh (answers : Answers) {w w' : Attentive World}
    (h : a.attentive.afresh calls w = (reports.map .ok, w')) :
    ∃ heard, w'.2 = w.2 ++ heard ∧ ((∀ h ∈ heard, answers.Gives h) →
      (recordsOf reports).map (·.importPath) =
        calls.flatMap fun targets => (answers.plan targets).archived) := by
  induction calls generalizing reports w with
  | nil =>
    obtain ⟨hreports, rfl⟩ := Prod.mk.inj h
    obtain rfl := List.map_eq_nil_iff.1 hreports.symm
    exact ⟨[], by rw [List.append_nil], fun _ => rfl⟩
  | cons targets calls ih =>
    obtain ⟨report, rest, progress, w₁, rfl, hrun, hrest⟩ := afresh_cons_eq_ok h
    obtain ⟨heard, hheard, hplanned⟩ := planned_of_run answers hrun
    obtain ⟨heard', hheard', hplanned'⟩ := ih hrest
    refine ⟨heard ++ heard', by rw [hheard', hheard, List.append_assoc], fun hgives => ?_⟩
    have hdisk' : ∀ (w : Attentive World) d,
        a.attentive.disk.get (a.attentive.disk.set w d) = d := fun w d => hdisk w.1 d
    have harchived := archived_of_run hdisk' hrun
    rw [hplanned fun h hmem => hgives h (List.mem_append_left _ hmem)] at harchived
    rw [List.flatMap_cons, ← hplanned' fun h hmem => hgives h (List.mem_append_right _ hmem),
      recordsOf_cons, List.map_append, ← harchived]
    rfl

/-! ## What is read from the manifest -/

/-- The lines of records bind their import paths. -/
theorem spells_linesText {bytes : ByteArray} {m : Manifest} (h : Manifest.Spells bytes m)
    (hstored : ∀ r ∈ records, r.storedPath = a.storedPath r.importPath)
    (hbindable : ∀ r ∈ records, Manifest.Bindable r.importPath (a.storedPath r.importPath)) :
    Manifest.Spells (bytes ++ (linesText records).toUTF8)
      (m.bindAll a.storedPath (records.map (·.importPath))) := by
  induction records generalizing bytes m with
  | nil =>
    have hnone : (linesText []).toUTF8 = .empty := rfl
    rw [hnone, ByteArray.append_empty]
    exact h
  | cons r records ih =>
    have hfirst := h.append (hbindable r List.mem_cons_self)
    have hrest := ih hfirst (fun r' hr' => hstored r' (List.mem_cons_of_mem _ hr'))
      fun r' hr' => hbindable r' (List.mem_cons_of_mem _ hr')
    have hone : linesText [r] = Manifest.line r.importPath (a.storedPath r.importPath) ++ "\n" := by
      rw [← hstored r List.mem_cons_self]
      exact String.empty_append
    have hlines : (linesText (r :: records)).toUTF8 =
        (linesText [r]).toUTF8 ++ (linesText records).toUTF8 := by
      rw [← List.singleton_append, linesText_append]
      exact String.toByteArray_append
    rw [hlines, hone, ← ByteArray.append_assoc]
    exact hrest

/-- What is read from the manifest after some runs. -/
structure Folded (a : Archivist World) (known : Manifest) (before after : Disk)
    (reports : List Report) (m : Manifest) : Prop where
  spelt : Manifest.Spells (a.manifestAt after) m
  /-- It can be read if it could be read before, or if anything was archived. -/
  loaded : (∃ bytes, before.read a.manifestPath = .ok bytes) ∨ recordsOf reports ≠ [] →
    Manifest.load after a.manifestPath = .ok m
  /-- What was archived is bound to where it is stored, and all else as before. -/
  binds : ∀ i, m.get? i =
    if i ∈ (recordsOf reports).map (·.importPath) then some (a.storedPath i) else known.get? i

variable {known : Manifest} {world world' : World} {answers : Answers}

variable (hrooted : a.urlPrefix.toList.head? = some '/') (hline : '\n' ∉ a.urlPrefix.toList)

include hdisk hrooted hline in
/-- What is read from the manifest are the bindings from before, and those of what is planned. -/
theorem folded_of_afresh (hspells : Manifest.Spells (a.manifestAt (a.disk.get world)) known)
    (hruns : a.afresh calls world = (reports.map .ok, world'))
    (hgives : ∀ h ∈ a.overheard calls world, answers.Gives h)
    (hunwritten : a.Unwritten (a.trail calls world))
    (hgood : ∀ i ∈ (recordsOf reports).map (·.importPath),
      i ≠ "" ∧ ∀ c ∈ i.toList, Text.isBlank c = false) :
    a.Folded known (a.disk.get world) (a.disk.get world') reports (known.bindAll a.storedPath
      (calls.flatMap fun targets => (answers.plan targets).archived)) := by
  have hrecorded : a.recorded.afresh calls (world, []) =
      (reports.map .ok, world', a.trail calls world) := by
    have hshadow := (shadows_recorded a).afresh calls (world, [])
    rw [hruns] at hshadow
    obtain ⟨hresults, hworld⟩ := Prod.mk.inj hshadow
    exact Prod.ext hresults.symm (Prod.ext hworld.symm rfl)
  have hattentive : a.attentive.afresh calls (world, []) =
      (reports.map .ok, world', a.overheard calls world) := by
    have hshadow := (shadows_attentive a).afresh calls (world, [])
    rw [hruns] at hshadow
    obtain ⟨hresults, hworld⟩ := Prod.mk.inj hshadow
    exact Prod.ext hresults.symm (Prod.ext hworld.symm rfl)
  obtain ⟨-, hstored, hlengthens⟩ := lengthens_of_afresh hdisk hrecorded
  obtain ⟨heard, hheard, hplanned⟩ := planned_of_afresh hdisk answers hattentive
  obtain rfl : a.overheard calls world = heard := hheard
  rw [← hplanned hgives]
  have hgrown := hlengthens hunwritten
  have hspelt : Manifest.Spells (a.manifestAt (a.disk.get world'))
      (known.bindAll a.storedPath ((recordsOf reports).map (·.importPath))) := by
    rw [hgrown.bytes]
    refine spells_linesText hspells hstored fun r hr => ?_
    obtain ⟨hnamed, hsolid⟩ := hgood _ (List.mem_map.2 ⟨r, hr, rfl⟩)
    exact bindable_storedPath hrooted hline hnamed hsolid
  constructor
  case spelt => exact hspelt
  case loaded =>
    intro hor
    obtain ⟨bytes, hread⟩ := hgrown.readable hor
    rw [Manifest.load, hread]
    rw [manifestAt, Disk.contentAt_of_read hread] at hspelt
    exact hspelt.ofBytes
  case binds => exact fun i => Manifest.get?_bindAll known a.storedPath _ i

/-! ## Whatever order, however often -/

instance (answers : Answers) : DecidablePred answers.Gives
  | .listed packages => inferInstanceAs (Decidable (packages = answers.standard))
  | .readied package ready => inferInstanceAs (Decidable (ready = answers.ready package))
  | .built package named => inferInstanceAs (Decidable (named = answers.named package))

/-- The manifest was left alone where all but the jobs of a run have kept it. -/
theorem unwritten_of_kept (hapart : a.ManifestApart)
    (h : ∀ deed ∈ log, (deed.before.tree.get? deed.before.cwd).any Tree.isDir = true ∧
      ((a.manifestAt deed.after).data = (a.manifestAt deed.before).data ∧
          deed.leaves a.manifestPath = true ∨
        deed.cause = .job ∧ mayRemove log deed = false)) : a.Unwritten log where
  toLeavesManifest := leavesManifest_of_kept fun deed hdeed =>
    ⟨(h deed hdeed).1, (h deed hdeed).2.symm.imp_right And.left⟩
  readable := by
    rintro early deed late rfl houtside
    rcases (h deed (List.mem_append_right _ List.mem_cons_self)).2 with ⟨-, hleaves⟩ | ⟨hjob, hnot⟩
    · exact fun bytes => Deed.read_of_leaves hleaves
    · exact absurd (houtside hjob) (not_removes_of_mayRemove hnot)
  apart deed _ i _ := hapart deed.before i

/-- An archivist who tries out a script, with short names. -/
def terse : Archivist BuildRehearsal :=
  { rehearsed with storeDir := "s/p", manifestPath := "s/p/m", urlPrefix := "/p" }

theorem terse_placed : terse.Placed "s" "p" where
  component := by decide
  oneLine := by decide
  storeDir := rfl
  urlPrefix := by decide
  manifest := ⟨"m", by decide, by decide⟩

theorem terse_apart : terse.ManifestApart :=
  fun d importPath => terse_placed.manifest_ne importPath d

/-- A builder who builds two packages, of which one needs the other. It has to be fetched first. -/
def linkedBuild : BuildRehearsal where
  disk := manifestDisk "s/p/m" "o -> /o\n"
  script :=
    { standard := .ok []
      available := [("c", [.ok false, .ok true])]
      fetch := [("c", [⟨[], .ok ⟨true, "", ""⟩⟩])]
      build := [("a", [⟨[("w/b001/_pkg_.a", some "A".toUTF8)], .ok ⟨true, "", "WORK=w\n"⟩⟩]),
        ("c", [⟨[("w/b001/_pkg_.a", some "C".toUTF8),
          ("w/b001/importcfg", some "packagefile a=a\n".toUTF8), ("a", some "B".toUTF8)],
          .ok ⟨true, "", "WORK=w\n"⟩⟩])] }
  called := []
  forgotten := 0

/-- What that builder is heard to answer. -/
def linkedAnswers : Answers where
  standard := []
  ready _ := true
  named package := if package = "c" then ["c", "a"] else [package]

/-- A builder who builds two packages. For the first it makes files and announces a directory. -/
def rivalBuild (manifestPath : String) (files : List (String × String)) (work : String) :
    BuildRehearsal :=
  scripted (manifestDisk manifestPath "o -> /o\n")
    [("a", files, work), ("b", [("w/b001/_pkg_.a", "B")], "w")] []

/-- What a builder answers who builds every package, and nothing else for it. -/
def plainAnswers : Answers where
  standard := []
  ready _ := true
  named package := [package]

/-- Runs go through, hear what stands in a table, report these import paths, and leave these
    bindings. -/
def ComesTo (a : Archivist BuildRehearsal) (world : BuildRehearsal) (answers : Answers)
    (calls : List (List Target)) (paths : List (List String)) (entries : List (String × String)) :
    Prop :=
  (a.afresh calls world).1.map
      (fun result => result.toOption.map fun report => report.records.map (·.importPath)) =
    paths.map some ∧
  (∀ h ∈ a.overheard calls world, answers.Gives h) ∧
  (Manifest.load (a.afresh calls world).2.disk a.manifestPath).toOption = some ⟨entries⟩

instance (a : Archivist BuildRehearsal) (world : BuildRehearsal) (answers : Answers)
    (calls : List (List Target)) (paths : List (List String)) (entries : List (String × String)) :
    Decidable (a.ComesTo world answers calls paths entries) :=
  inferInstanceAs (Decidable (_ ∧ _ ∧ _))

/-- Runs for two packages go through in either order, hear what stands in one table, and report the
    two packages, but an import path is not read from the manifest as it is after the other order. -/
def Diverges (a : Archivist BuildRehearsal) (world : BuildRehearsal) (importPath : String) : Prop :=
  ∃ (reports reports' : List Report) (world₁ world₂ : BuildRehearsal) (m m' : Manifest),
    Manifest.Spells (a.manifestAt world.disk) ⟨[("o", "/o")]⟩ ∧
    a.afresh [[.package "a"], [.package "b"]] world = (reports.map .ok, world₁) ∧
    a.afresh [[.package "b"], [.package "a"]] world = (reports'.map .ok, world₂) ∧
    (∀ h ∈ a.overheard [[.package "a"], [.package "b"]] world ++
      a.overheard [[.package "b"], [.package "a"]] world, plainAnswers.Gives h) ∧
    (recordsOf reports).map (·.importPath) = ["a", "b"] ∧
    (recordsOf reports').map (·.importPath) = ["b", "a"] ∧
    Manifest.load world₁.disk a.manifestPath = .ok m ∧
    Manifest.load world₂.disk a.manifestPath = .ok m' ∧ m'.get? importPath ≠ m.get? importPath

include hdisk hrooted hline in
/-- Where what is heard in two series of runs stands in one table, the same import paths are bound
    to the same places if the same targets were worked through, in whatever order and however often;
    and they stand in the same order if the one series only repeats what it has done at first, like
    the other one. So the order of two runs does not matter, and repeating one changes nothing. -/
theorem afresh_folds {first second : List (List Target)} {reports reports' : List Report}
    {world world₁ world₂ : World}
    (hspells : Manifest.Spells (a.manifestAt (a.disk.get world)) known)
    (hfirst : a.afresh first world = (reports.map .ok, world₁))
    (hsecond : a.afresh second world = (reports'.map .ok, world₂))
    (hgives : ∀ h ∈ a.overheard first world ++ a.overheard second world, answers.Gives h)
    (hgood : ∀ i ∈ (recordsOf (reports ++ reports')).map (·.importPath),
      i ≠ "" ∧ ∀ c ∈ i.toList, Text.isBlank c = false)
    (hunwritten : a.Unwritten (a.trail first world))
    (hunwritten' : a.Unwritten (a.trail second world)) :
    ∃ m m', a.Folded known (a.disk.get world) (a.disk.get world₁) reports m ∧
      a.Folded known (a.disk.get world) (a.disk.get world₂) reports' m' ∧
      (first ⊆ second → second ⊆ first → ∀ i, m'.get? i = m.get? i) ∧
      (first <+: second → second ⊆ first → m' = m) := by
  rw [recordsOf_append, List.map_append] at hgood
  let names (calls : List (List Target)) : List String :=
    calls.flatMap fun targets => (answers.plan targets).archived
  have hnames : ∀ {calls calls' : List (List Target)}, calls ⊆ calls' →
      names calls ⊆ names calls' := by
    intro calls calls' hsub i hi
    obtain ⟨targets, htargets, hi⟩ := List.mem_flatMap.1 hi
    exact List.mem_flatMap.2 ⟨targets, hsub htargets, hi⟩
  refine ⟨_, _,
    folded_of_afresh hdisk hrooted hline hspells hfirst
      (fun h hmem => hgives h (List.mem_append_left _ hmem)) hunwritten
      (fun i hi => hgood i (List.mem_append_left _ hi)),
    folded_of_afresh hdisk hrooted hline hspells hsecond
      (fun h hmem => hgives h (List.mem_append_right _ hmem)) hunwritten'
      (fun i hi => hgood i (List.mem_append_right _ hi)), ?_, ?_⟩
  · intro hsub hsub' i
    have hsame : i ∈ names first ↔ i ∈ names second :=
      ⟨fun hi => hnames hsub hi, fun hi => hnames hsub' hi⟩
    rw [Manifest.get?_bindAll, Manifest.get?_bindAll]
    exact if_congr hsame.symm rfl rfl
  · -- what is done again binds what is bound
    rintro ⟨more, rfl⟩ hsub
    have hagain : ∀ i ∈ names more, i ∈ names first := by
      intro i hi
      exact hnames hsub (hnames (List.subset_append_right first more) hi)
    rw [List.flatMap_append, Manifest.bindAll_append]
    refine Manifest.bindAll_of_bound fun i hi => ?_
    rw [Manifest.get?_bindAll, if_pos (hagain i hi)]

theorem ComesTo.exists_reports {a : Archivist BuildRehearsal} {world : BuildRehearsal}
    {paths : List (List String)} {entries : List (String × String)}
    (h : a.ComesTo world answers calls paths entries) :
    ∃ (reports : List Report) (world' : BuildRehearsal),
      a.afresh calls world = (reports.map .ok, world') ∧
      (recordsOf reports).map (·.importPath) = paths.flatten ∧
      Manifest.load world'.disk a.manifestPath = .ok ⟨entries⟩ := by
  obtain ⟨hpaths, -, hload⟩ := h
  rcases hruns : a.afresh calls world with ⟨results, world'⟩
  rw [hruns] at hpaths hload
  suffices hreports : ∃ reports : List Report, results = reports.map .ok ∧
      (recordsOf reports).map (·.importPath) = paths.flatten by
    obtain ⟨reports, rfl, hflat⟩ := hreports
    exact ⟨reports, world', rfl, hflat, toOption_eq_some_iff.1 hload⟩
  clear hruns hload
  induction results generalizing paths with
  | nil =>
    obtain rfl := List.map_eq_nil_iff.1 hpaths.symm
    exact ⟨[], rfl, rfl⟩
  | cons result results ih =>
    obtain ⟨first, rest, rfl, hfirst, hrest⟩ := List.map_eq_cons_iff.1 hpaths.symm
    obtain ⟨reports, rfl, hflat⟩ := ih hrest.symm
    obtain ⟨report, hreport, rfl⟩ := Option.map_eq_some_iff.1 hfirst.symm
    obtain rfl := toOption_eq_some_iff.1 hreport
    refine ⟨report :: reports, rfl, ?_⟩
    rw [recordsOf_cons, List.map_append, hflat]
    rfl

theorem spells_brief {bytes : ByteArray} (h : bytes.data = "o -> /o\n".toUTF8.data) :
    Manifest.Spells bytes ⟨[("o", "/o")]⟩ :=
  ⟨"o -> /o\n", Text.ofUtf8?_eq_some_iff.2 (ByteArray.ext h), .inr (by decide), rfl⟩

/-- Two packages are bound in either order, the second run for the one that needs the other. -/
theorem afresh_folds_linked :
    ∃ (reports reports' : List Report) (world₁ world₂ : BuildRehearsal) (m m' : Manifest),
    Manifest.Spells (terse.manifestAt (terse.disk.get linkedBuild)) ⟨[("o", "/o")]⟩ ∧
    terse.afresh [[.package "a"], [.package "c"]] linkedBuild = (reports.map .ok, world₁) ∧
    terse.afresh [[.package "c"], [.package "a"]] linkedBuild = (reports'.map .ok, world₂) ∧
    (∀ h ∈ terse.overheard [[.package "a"], [.package "c"]] linkedBuild ++
      terse.overheard [[.package "c"], [.package "a"]] linkedBuild, linkedAnswers.Gives h) ∧
    terse.Unwritten (terse.trail [[.package "a"], [.package "c"]] linkedBuild) ∧
    terse.Unwritten (terse.trail [[.package "c"], [.package "a"]] linkedBuild) ∧
    terse.Folded ⟨[("o", "/o")]⟩ (terse.disk.get linkedBuild) world₁.disk reports m ∧
    terse.Folded ⟨[("o", "/o")]⟩ (terse.disk.get linkedBuild) world₂.disk reports' m' ∧
    (∀ i, m'.get? i = m.get? i) ∧
    m.entries = [("o", "/o"), ("a", "/p/a.a"), ("c", "/p/c.a")] ∧
    m'.entries = [("o", "/o"), ("c", "/p/c.a"), ("a", "/p/a.a")] := by
  have hkept : ∀ calls ∈ [[[Target.package "a"], [.package "c"]], [[.package "c"], [.package "a"]]],
      ∀ deed ∈ terse.trail calls linkedBuild,
        (deed.before.tree.get? deed.before.cwd).any Tree.isDir = true ∧
        ((terse.manifestAt deed.after).data = (terse.manifestAt deed.before).data ∧
            deed.leaves terse.manifestPath = true ∨
          deed.cause = .job ∧ mayRemove (terse.trail calls linkedBuild) deed = false) := by
    decide +kernel
  have hcomes : terse.ComesTo linkedBuild linkedAnswers [[.package "a"], [.package "c"]]
        [["a"], ["c", "a"]] [("o", "/o"), ("a", "/p/a.a"), ("c", "/p/c.a")] ∧
      terse.ComesTo linkedBuild linkedAnswers [[.package "c"], [.package "a"]]
        [["c", "a"], ["a"]] [("o", "/o"), ("c", "/p/c.a"), ("a", "/p/a.a")] := by
    decide +kernel
  obtain ⟨reports, world₁, hfirst, hpaths, hload⟩ := hcomes.1.exists_reports
  obtain ⟨reports', world₂, hsecond, hpaths', hload'⟩ := hcomes.2.exists_reports
  have hgives : ∀ h ∈ terse.overheard [[.package "a"], [.package "c"]] linkedBuild ++
      terse.overheard [[.package "c"], [.package "a"]] linkedBuild, linkedAnswers.Gives h :=
    fun h hmem => (List.mem_append.1 hmem).elim (hcomes.1.2.1 h) (hcomes.2.2.1 h)
  have hspells : Manifest.Spells (terse.manifestAt (terse.disk.get linkedBuild)) ⟨[("o", "/o")]⟩ :=
    spells_brief (by decide +kernel)
  have hunwritten := unwritten_of_kept terse_apart
    (hkept [[.package "a"], [.package "c"]] List.mem_cons_self)
  have hunwritten' := unwritten_of_kept terse_apart
    (hkept [[.package "c"], [.package "a"]] (List.mem_cons_of_mem _ List.mem_cons_self))
  have hgood : ∀ i ∈ (recordsOf (reports ++ reports')).map (·.importPath),
      i ≠ "" ∧ ∀ c ∈ i.toList, Text.isBlank c = false := by
    have hsolid : ∀ i ∈ [["a"], ["c", "a"]].flatten ++ [["c", "a"], ["a"]].flatten,
        i ≠ "" ∧ i.toList.all (fun c => !Text.isBlank c) = true := by decide +kernel
    rw [recordsOf_append, List.map_append, hpaths, hpaths']
    exact fun i hi => ⟨(hsolid i hi).1, by simpa using (hsolid i hi).2⟩
  have hsome : recordsOf reports ≠ [] := by
    intro hnone
    rw [hnone] at hpaths
    cases hpaths
  have hsome' : recordsOf reports' ≠ [] := by
    intro hnone
    rw [hnone] at hpaths'
    cases hpaths'
  obtain ⟨m, m', hfolded, hfolded', hsame, -⟩ := afresh_folds (fun _ _ => rfl) (by decide)
    (by decide) hspells hfirst hsecond hgives hgood hunwritten hunwritten'
  obtain rfl := Except.ok.inj ((hfolded.loaded (.inr hsome)).symm.trans hload)
  obtain rfl := Except.ok.inj ((hfolded'.loaded (.inr hsome')).symm.trans hload')
  exact ⟨reports, reports', world₁, world₂, _, _, hspells, hfirst, hsecond, hgives, hunwritten,
    hunwritten', hfolded, hfolded', hsame (by simp) (by simp), rfl, rfl⟩

theorem diverges_of_comesTo {a : Archivist BuildRehearsal} {world : BuildRehearsal}
    {importPath : String} (entries entries' : List (String × String))
    (hfound : (a.manifestAt world.disk).data = "o -> /o\n".toUTF8.data)
    (h : a.ComesTo world plainAnswers [[.package "a"], [.package "b"]] [["a"], ["b"]] entries ∧
      a.ComesTo world plainAnswers [[.package "b"], [.package "a"]] [["b"], ["a"]] entries')
    (hne : entries'.lookup importPath ≠ entries.lookup importPath) : a.Diverges world importPath := by
  obtain ⟨reports, world₁, hfirst, hpaths, hload⟩ := h.1.exists_reports
  obtain ⟨reports', world₂, hsecond, hpaths', hload'⟩ := h.2.exists_reports
  exact ⟨reports, reports', world₁, world₂, _, _, spells_brief hfound, hfirst, hsecond,
    fun heard hmem => (List.mem_append.1 hmem).elim (h.1.2.1 heard) (h.2.2.1 heard), hpaths,
    hpaths', hload, hload', hne⟩

/-- The order of two runs matters where a builder writes to the manifest, where it announces the
    store as its work directory, and where the manifest is the file for an archive. -/
theorem afresh_diverges :
    terse.Diverges (rivalBuild "s/p/m" [("w/b001/_pkg_.a", "A"), ("s/p/m", "n -> /n\n")] "w") "b" ∧
    terse.Diverges (rivalBuild "s/p/m" [("s/p/b001/_pkg_.a", "A")] "s/p") "b" ∧
    { terse with manifestPath := "s/p/a.a" }.Diverges
      (rivalBuild "s/p/a.a" [("w/b001/_pkg_.a", "A")] "w") "b" := by
  refine ⟨diverges_of_comesTo [("n", "/n"), ("a", "/p/a.a"), ("b", "/p/b.a")]
      [("n", "/n"), ("a", "/p/a.a")] ?_ ?_ ?_,
    diverges_of_comesTo [("b", "/p/b.a")] [] ?_ ?_ ?_,
    diverges_of_comesTo [("Aa", "/p/a.a"), ("b", "/p/b.a")] [("Aa", "/p/a.a")] ?_ ?_ ?_⟩ <;>
      decide +kernel

end Archivist

end Workbench.Package
