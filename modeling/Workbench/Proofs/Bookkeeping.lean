import Mathlib.Data.List.Nodup
import Workbench.Proofs.Lifetimes

set_option autoImplicit false

/-! # What a run keeps books of

A run keeps a list of the packages that it had built and one of the import paths that it archived,
and looks both up before it does so again; so neither list has repetitions. For each import path
that it archives, and only once the archive is in the store, it appends a line to the manifest; so
what the run itself has changed in the manifest are the lines of the records, whether the run went
through or not. -/

namespace Workbench.Package

open Host (Disk Job)

variable {World : Type}

/-! ## Packages and import paths -/

/-- The package that was built by a deed. -/
def Deed.asked? (deed : Deed) : Option String :=
  match deed.cause with
  | .build package _ => some package
  | _ => none

/-- The packages that were built, in order. -/
def asked (log : List Deed) : List String := log.filterMap Deed.asked?

@[simp] theorem asked_append (log log' : List Deed) : asked (log ++ log') = asked log ++ asked log' :=
  List.filterMap_append

/-- What is new in the books of a run. -/
structure Books (d d' : Draft (Recorded World)) (new : List Deed) (records : List PackageRecord) :
    Prop where
  log : d'.log = d.log ++ new
  tried : d'.progress.tried = d.progress.tried ++ asked new
  reported : d'.report.records = d.report.records ++ records
  archived : d'.progress.archived = d.progress.archived ++ records.map (·.importPath)
  triedOnce : d.progress.tried.Nodup → d'.progress.tried.Nodup
  archivedOnce : d.progress.archived.Nodup → d'.progress.archived.Nodup

/-- The books of a run were kept. -/
def Booked (d d' : Draft (Recorded World)) : Prop := ∃ new records, Books d d' new records

variable {d d' d'' : Draft (Recorded World)} {new new' : List Deed}
  {records records' : List PackageRecord}

theorem Books.refl (hworld : d'.world = d.world) (hprogress : d'.progress = d.progress)
    (hrecords : d'.report.records = d.report.records) : Books d d' [] [] where
  log := by rw [Draft.log, hworld, List.append_nil, Draft.log]
  tried := by rw [hprogress, asked, List.filterMap_nil, List.append_nil]
  reported := by rw [hrecords, List.append_nil]
  archived := by rw [hprogress, List.map_nil, List.append_nil]
  triedOnce := by rw [hprogress]; exact id
  archivedOnce := by rw [hprogress]; exact id

theorem Books.trans (h : Books d d' new records) (h' : Books d' d'' new' records') :
    Books d d'' (new ++ new') (records ++ records') where
  log := by rw [h'.log, h.log, List.append_assoc]
  tried := by rw [h'.tried, h.tried, asked_append, List.append_assoc]
  reported := by rw [h'.reported, h.reported, List.append_assoc]
  archived := by rw [h'.archived, h.archived, List.map_append, List.append_assoc]
  triedOnce := h'.triedOnce ∘ h.triedOnce
  archivedOnce := h'.archivedOnce ∘ h.archivedOnce

instance : IsPreorder (Draft (Recorded World)) Booked where
  refl _ := ⟨[], [], .refl rfl rfl rfl⟩
  trans _ _ _ := fun ⟨_, _, h⟩ ⟨_, _, h'⟩ => ⟨_, _, h.trans h'⟩

namespace Archivist

variable {a : Archivist World}

theorem Follows.books {cause : Cause} (h : a.Follows cause d d')
    (hcause : ∀ package work?, cause ≠ .build package work?) :
    Books d d' [⟨cause, a.diskOf d, a.diskOf d'⟩] [] where
  log := h.log
  tried := by
    have hasked : asked [⟨cause, a.diskOf d, a.diskOf d'⟩] = [] := by
      cases cause with
      | job => rfl
      | call => rfl
      | build package work? => exact absurd rfl (hcause package work?)
    rw [h.progress, hasked, List.append_nil]
  reported := by rw [h.report, List.append_nil]
  archived := by rw [h.progress, List.map_nil, List.append_nil]
  triedOnce := by rw [h.progress]; exact id
  archivedOnce := by rw [h.progress]; exact id

theorem Does.books {α : Type} {job : Job α} {result : Except Host.Error α}
    (h : a.Does job d result d') : Books d d' [⟨.job, a.diskOf d, a.diskOf d'⟩] [] :=
  h.follows.books (by simp)

/-- A package that is to be built was not built before. -/
theorem books_of_asked {package : String} {work? : Option String}
    (htried : package ∉ d.progress.tried)
    (h : a.Follows (.build package work?) (d.tried package) d') :
    Books d d' [⟨.build package work?, a.diskOf d, a.diskOf d'⟩] [] where
  log := h.log
  tried := by rw [h.progress]; rfl
  reported := by rw [h.report, List.append_nil]; rfl
  archived := by rw [h.progress, List.map_nil, List.append_nil]; rfl
  triedOnce hnodup := by
    have honce := hnodup.concat htried
    rw [List.concat_eq_append] at honce
    rwa [h.progress]
  archivedOnce := by rw [h.progress]; exact id

/-- An import path that is archived was not archived before. -/
theorem books_filed (d : Draft (Recorded World)) {r : PackageRecord}
    (hnew : r.importPath ∉ d.progress.archived) : Books d (d.filed r) [] [r] where
  log := by rw [List.append_nil]; rfl
  tried := by rw [asked, List.filterMap_nil, List.append_nil]; rfl
  reported := rfl
  archived := rfl
  triedOnce := id
  archivedOnce hnodup := by
    have honce := hnodup.concat hnew
    rwa [List.concat_eq_append] at honce

theorem Filing.booked {w : WorkDir} {importPath archive : String}
    {outcome : Except Host.Error Unit × Draft (Recorded World)}
    (h : a.Filing w importPath archive d outcome) : Booked d outcome.2 := by
  cases h with
  | known => exact refl_of Booked d
  | unplaced _ hplaced => exact ⟨_, _, hplaced.books⟩
  | uncopied _ hplaced hcopied => exact ⟨_, _, hplaced.books.trans hcopied.books⟩
  | unbound _ hplaced hcopied hbound =>
    exact ⟨_, _, hplaced.books.trans (hcopied.books.trans hbound.books)⟩
  | filed hnew hplaced hcopied hbound =>
    refine ⟨_, _, hplaced.books.trans (hcopied.books.trans (hbound.books.trans
      (books_filed _ fun hmem => hnew ?_)))⟩
    rwa [hbound.follows.progress, hcopied.follows.progress, hplaced.follows.progress] at hmem

/-- All parts of a run keep the books. -/
theorem parts_booked (a : Archivist World) : a.Parts Booked where
  prepared hdoes := ⟨_, _, hdoes.books⟩
  called hcalled := ⟨_, _, hcalled.books (by simp)⟩
  noted hworld hprogress hrecords := ⟨_, _, .refl hworld hprogress hrecords⟩
  asked htried _ hasked := ⟨_, _, books_of_asked htried hasked⟩
  read hdoes := ⟨_, _, hdoes.books⟩
  archived _ _ _ _ hfiling := hfiling.booked
  removed _ hdoes := ⟨_, _, hdoes.books⟩

/-- The import paths that a run has reported. -/
def reportedBy (result : Except Host.Error Report) : List String :=
  (result.toOption.map fun report => report.records.map (·.importPath)).getD []

/-- The import paths that several runs have reported. -/
def reported (results : List (Except Host.Error Report)) : List String :=
  results.flatMap reportedBy

/-- What is known after several runs is what they have done. -/
structure Remembers (results : List (Except Host.Error Report)) (progress : Progress)
    (log : List Deed) : Prop where
  tried : progress.tried = asked log
  triedOnce : progress.tried.Nodup
  archived : (reported results).Sublist progress.archived
  archivedOnce : progress.archived.Nodup

theorem Remembers.run {results : List (Except Host.Error Report)} {progress : Progress}
    {world : Recorded World} (h : Remembers results progress world.2)
    (hbooks : Books (.fresh world progress) d new records) (outcome : Except Host.Error Unit) :
    Remembers (results ++ [outcome.map fun _ => d.report]) d.progress d.log where
  tried := by
    rw [hbooks.tried, hbooks.log, asked_append]
    exact congrArg (· ++ asked new) h.tried
  triedOnce := hbooks.triedOnce h.triedOnce
  archived := by
    have hreported : d.report.records = records := hbooks.reported.trans (List.nil_append _)
    rw [reported, List.flatMap_append, hbooks.archived, List.flatMap_singleton, ← hreported]
    refine h.archived.append ?_
    cases outcome with
    | error e => exact List.nil_sublist _
    | ok => exact List.Sublist.refl _
  archivedOnce := hbooks.archivedOnce h.archivedOnce

variable (hdisk : ∀ w d, a.disk.get (a.disk.set w d) = d)

include hdisk in
theorem remembers_of_runs (calls : List (List Target)) (world : World) :
    Remembers (a.recorded.runs calls ⟨[], []⟩ (world, [])).1
      (a.recorded.runs calls ⟨[], []⟩ (world, [])).2.1
      (a.recorded.runs calls ⟨[], []⟩ (world, [])).2.2.2 := by
  refine keeps_of_runs (a := a.recorded)
    (fun results progress world => Remembers results progress world.2)
    (fun results progress world targets h => ?_)
    ⟨rfl, List.nodup_nil, List.Sublist.refl _, List.nodup_nil⟩ calls
  obtain ⟨new, records, hbooks⟩ := (parts_booked a).steps hdisk targets (.fresh world progress)
  exact h.run hbooks _

include hdisk in
/-- Over all runs of an archivist, no package is built twice and no import path is reported twice.
    -/
theorem LastRun.once {calls : List (List Target)} {targets : List Target} {world before after : World}
    {results : List (Except Host.Error Report)} {progress : Progress}
    {result : Except Host.Error Report} {outcome : Except Host.Error Unit}
    (h : a.LastRun calls targets world results progress before after result outcome d) :
    (asked d.log).Nodup ∧ (reported (results ++ [result])).Nodup := by
  have hpast := remembers_of_runs hdisk calls world
  obtain ⟨new, records, hbooks⟩ := (parts_booked a).steps hdisk targets
    (.fresh (before, a.history calls world) progress)
  rw [h.past] at hpast
  rw [h.course] at hbooks
  have hlast := hpast.run hbooks outcome
  rw [← h.comes] at hlast
  exact ⟨hlast.tried ▸ hlast.triedOnce, hlast.archivedOnce.sublist hlast.archived⟩

/-! ## Lines of the manifest -/

/-- The bytes of the manifest. -/
def manifestAt (a : Archivist World) (d : Disk) : ByteArray := d.contentAt (d.placeOf a.manifestPath)

/-- The manifest is none of the files of the store. -/
def ManifestApart (a : Archivist World) : Prop :=
  ∀ (d : Disk) (importPath : String), d.placeOf a.manifestPath ≠ d.placeOf (a.storeFile importPath)

/-- The lines of records, each of them ended. -/
def linesText (records : List PackageRecord) : String :=
  String.join (records.map fun r => r.line ++ "\n")

/-- What a deed adds to the manifest. -/
inductive Adds (a : Archivist World) (early : List Deed) (deed : Deed) : List PackageRecord → Prop
  /-- The builder was at work, or a work directory was removed. -/
  | outside : (deed.cause = .job → Removes early deed) → Adds a early deed []
  /-- The run has left the manifest as it was. -/
  | beside : deed.cause = .job → a.manifestAt deed.after = a.manifestAt deed.before →
      Adds a early deed []
  /-- The run has copied an archive into the store, where the manifest is the file for it. -/
  | disturbing {importPath archive : String} : deed.cause = .job →
      (resultOf (Job.copy archive (a.storeFile importPath)) deed.before).2 = deed.after →
      deed.before.placeOf a.manifestPath = deed.before.placeOf (a.storeFile importPath) →
      Adds a early deed []
  /-- The run has appended the line of an archive that it had put into the store. -/
  | line {r : PackageRecord} {bytes : ByteArray} : deed.cause = .job →
      r.storedPath = a.storedPath r.importPath → a.Archived early r.importPath bytes →
      deed.before.read (a.storeFile r.importPath) = .ok bytes →
      a.manifestAt deed.after = a.manifestAt deed.before ++ (r.line ++ "\n").toUTF8 →
      Adds a early deed [r]

/-- What a stretch of deeds that leads from a disk to another adds to the manifest. -/
inductive Appends (a : Archivist World) :
    List Deed → Disk → List Deed → Disk → List PackageRecord → Prop
  | nil {early : List Deed} {disk : Disk} : Appends a early disk [] disk []
  | cons {early new : List Deed} {cause : Cause} {before after last : Disk}
      {added records : List PackageRecord} : a.Adds early ⟨cause, before, after⟩ added →
      Appends a (early ++ [⟨cause, before, after⟩]) after new last records →
      Appends a early before (⟨cause, before, after⟩ :: new) last (added ++ records)

theorem Appends.trans {early : List Deed} {first next last : Disk}
    (h : a.Appends early first new next records)
    (h' : a.Appends (early ++ new) next new' last records') :
    a.Appends early first (new ++ new') last (records ++ records') := by
  induction h with
  | nil => simpa using h'
  | cons hadds _ ih =>
    rw [List.cons_append, List.append_assoc]
    refine .cons hadds (ih ?_)
    rwa [List.append_assoc, List.singleton_append]

theorem linesText_append (records records' : List PackageRecord) :
    linesText (records ++ records') = linesText records ++ linesText records' := by
  rw [linesText, List.map_append, String.join_append, linesText, linesText]

/-- Each deed of the stretch adds something, or nothing. -/
theorem Appends.adds {early : List Deed} {first last : Disk}
    (h : a.Appends early first new last records) {before after : List Deed} {deed : Deed}
    (hnew : new = before ++ deed :: after) : ∃ added, a.Adds (early ++ before) deed added := by
  induction h generalizing before with
  | nil => exact absurd hnew (by simp)
  | cons hadds _ ih =>
    cases before with
    | nil =>
      obtain ⟨rfl, -⟩ := List.cons.inj hnew
      rw [List.append_nil]
      exact ⟨_, hadds⟩
    | cons done before =>
      obtain ⟨rfl, hrest⟩ := List.cons.inj hnew
      obtain ⟨added, hadded⟩ := ih hrest
      rw [List.append_assoc, List.singleton_append] at hadded
      exact ⟨added, hadded⟩

/-- The working directory is there all along, and neither the builder nor the removal of a work
    directory changes the manifest. -/
structure LeavesManifest (a : Archivist World) (early new : List Deed) : Prop where
  grounded : ∀ deed ∈ new, deed.before.Grounded
  kept : ∀ done deed late, new = done ++ deed :: late →
    (deed.cause = .job → Removes (early ++ done) deed) →
    a.manifestAt deed.after = a.manifestAt deed.before

/-- A manifest to which nobody else writes has grown by the lines. -/
theorem Appends.manifest {early : List Deed} {first last : Disk}
    (h : a.Appends early first new last records) (hapart : a.ManifestApart)
    (hkept : ∀ done deed late, new = done ++ deed :: late →
      (deed.cause = .job → Removes (early ++ done) deed) →
      a.manifestAt deed.after = a.manifestAt deed.before) :
    a.manifestAt last = a.manifestAt first ++ (linesText records).toUTF8 := by
  induction h with
  | nil => simp [linesText]
  | @cons early new cause before after last added records hadds hrest ih =>
    have hlast := ih fun done deed late hsplit houtside => by
      refine hkept (⟨cause, before, after⟩ :: done) deed late (by rw [hsplit, List.cons_append]) ?_
      rwa [List.append_assoc, List.singleton_append] at houtside
    rw [hlast]
    cases hadds with
    | outside houtside =>
      rw [hkept [] ⟨cause, before, after⟩ new rfl (by rwa [List.append_nil]), List.nil_append]
    | beside _ hsame => rw [hsame, List.nil_append]
    | disturbing _ _ hover => exact absurd hover (hapart _ _)
    | @line r bytes _ _ _ _ hline =>
      have hone : linesText [r] = r.line ++ "\n" := String.empty_append
      rw [hline, linesText_append, hone, ByteArray.append_assoc]
      exact congrArg (_ ++ ·) String.toByteArray_append.symm

/-- What is new in a run, with what it adds to the manifest. -/
structure Lines (a : Archivist World) (d d' : Draft (Recorded World)) (new : List Deed)
    (records : List PackageRecord) : Prop where
  log : d'.log = d.log ++ new
  reported : d'.report.records = d.report.records ++ records
  appends : (∀ deed ∈ new, deed.before.Grounded) →
    a.Appends d.log (a.diskOf d) new (a.diskOf d') records

/-- What a run reports is what it has added. -/
def Lined (a : Archivist World) (d d' : Draft (Recorded World)) : Prop :=
  ∃ new records, a.Lines d d' new records

theorem Lines.refl (hworld : d'.world = d.world)
    (hrecords : d'.report.records = d.report.records) : a.Lines d d' [] [] where
  log := by rw [Draft.log, hworld, List.append_nil, Draft.log]
  reported := by rw [hrecords, List.append_nil]
  appends _ := by
    rw [diskOf, diskOf, hworld]
    exact .nil

theorem Lines.trans (h : a.Lines d d' new records) (h' : a.Lines d' d'' new' records') :
    a.Lines d d'' (new ++ new') (records ++ records') where
  log := by rw [h'.log, h.log, List.append_assoc]
  reported := by rw [h'.reported, h.reported, List.append_assoc]
  appends hgrounded := by
    have hthen := h'.appends fun deed hdeed => hgrounded deed (List.mem_append_right _ hdeed)
    rw [h.log] at hthen
    exact (h.appends fun deed hdeed => hgrounded deed (List.mem_append_left _ hdeed)).trans hthen

instance : IsPreorder (Draft (Recorded World)) (Lined a) where
  refl _ := ⟨[], [], .refl rfl rfl⟩
  trans _ _ _ := fun ⟨_, _, h⟩ ⟨_, _, h'⟩ => ⟨_, _, h.trans h'⟩

theorem Follows.lines {cause : Cause} (h : a.Follows cause d d')
    (hadds : (a.diskOf d).Grounded → a.Adds d.log ⟨cause, a.diskOf d, a.diskOf d'⟩ []) :
    a.Lines d d' [⟨cause, a.diskOf d, a.diskOf d'⟩] [] where
  log := h.log
  reported := by rw [h.report, List.append_nil]
  appends hgrounded := .cons (hadds (hgrounded _ (List.mem_singleton_self _))) .nil

theorem manifestAt_of_grown {places : List (List String)} {disk disk' : Disk}
    (h : Disk.Grown places disk disk') (haway : disk.placeOf a.manifestPath ∉ places) :
    a.manifestAt disk' = a.manifestAt disk := by
  rw [manifestAt, h.placeOf, h.contents _ haway, manifestAt]

theorem Does.lines {α : Type} {job : Job α} {result : Except Host.Error α}
    (h : a.Does job d result d') (hgrows : Leads (Job.Growing []) job) :
    a.Lines d d' [⟨.job, a.diskOf d, a.diskOf d'⟩] [] := by
  refine h.follows.lines fun hgrounded => .beside rfl ?_
  have hgrown := hgrows (a.diskOf d) hgrounded
  rw [h.outcome] at hgrown
  exact manifestAt_of_grown hgrown List.not_mem_nil

/-- An archive that is copied, or that cannot be, leaves the manifest as it was, unless that is the
    file for it. -/
theorem Does.adds_copied {importPath archive : String} {result : Except Host.Error Unit}
    (h : a.Does (Job.copy archive (a.storeFile importPath)) d result d')
    (hgrounded : (a.diskOf d).Grounded) :
    a.Adds d.log ⟨.job, a.diskOf d, a.diskOf d'⟩ [] := by
  by_cases hover : (a.diskOf d).placeOf a.manifestPath =
    (a.diskOf d).placeOf (a.storeFile importPath)
  · exact .disturbing rfl (congrArg Prod.snd h.outcome) hover
  · have hgrown := Job.growing_copy archive (a.storeFile importPath) (a.diskOf d) hgrounded
    rw [h.outcome] at hgrown
    exact .beside rfl (manifestAt_of_grown hgrown (by simpa using hover))

/-- An archive is put into the store, and then its line is appended. -/
theorem lines_filed {d₁ d₂ d₃ : Draft (Recorded World)} {package work importPath archive : String}
    {built : Disk} {w : WorkDir} (hleft : Left d₁.log package work built)
    (hscan : WorkDir.scan built work package = .ok w) (hmem : (importPath, archive) ∈ w.archives)
    (hcopied : a.Does (Job.copy archive (a.storeFile importPath)) d₁ (.ok ()) d₂)
    (hbound : a.Does (Manifest.append a.manifestPath (a.recordOf w importPath)) d₂ (.ok ()) d₃) :
    a.Lines d₁ (d₃.filed (a.recordOf w importPath))
      [⟨.job, a.diskOf d₁, a.diskOf d₂⟩, ⟨.job, a.diskOf d₂, a.diskOf d₃⟩]
      [a.recordOf w importPath] where
  log := by
    have hlog := hbound.follows.log
    rwa [hcopied.follows.log, List.append_assoc, List.singleton_append] at hlog
  reported := by
    show d₃.report.records ++ [_] = _
    rw [hbound.follows.report, hcopied.follows.report]
  appends hgrounded := by
    obtain ⟨content, hcontent, -, hread⟩ :=
      Job.copy_grown (hgrounded _ List.mem_cons_self) hcopied.outcome
    have harchived : a.Archived d₂.log importPath _ :=
      ⟨archive, a.diskOf d₁, content, ⟨d₁.log, a.diskOf d₂, [], package, work, built, w,
        hcopied.follows.log, hleft, hscan, hmem, hcopied.outcome⟩, hcontent, rfl⟩
    obtain ⟨-, hwritten⟩ := Job.appendLine_grown
      (hgrounded _ (List.mem_cons_of_mem _ (List.mem_singleton_self _))) hbound.outcome
    rw [hcopied.follows.log] at harchived
    have hadds := hcopied.adds_copied (hgrounded _ List.mem_cons_self)
    have hline : a.Adds (d₁.log ++ [⟨.job, a.diskOf d₁, a.diskOf d₂⟩])
        ⟨.job, a.diskOf d₂, a.diskOf d₃⟩ [a.recordOf w importPath] :=
      .line rfl rfl harchived hread (Disk.contentAt_of_read hwritten)
    exact .cons hadds (.cons hline .nil)

theorem Filing.lined {package work importPath archive : String} {built : Disk} {w : WorkDir}
    {outcome : Except Host.Error Unit × Draft (Recorded World)}
    (h : a.Filing w importPath archive d outcome) (hleft : Left d.log package work built)
    (hscan : WorkDir.scan built work package = .ok w) (hmem : (importPath, archive) ∈ w.archives) :
    a.Lined d outcome.2 := by
  have hparents : ∀ {result : Except Host.Error Unit} {d₁ : Draft (Recorded World)},
      a.Does (Job.makeParents (a.storeFile importPath)) d result d₁ →
      a.Lines d d₁ [⟨.job, a.diskOf d, a.diskOf d₁⟩] [] :=
    fun hplaced => hplaced.lines ((Job.paves_makeParents _).growing [])
  cases h with
  | known => exact refl_of a.Lined d
  | unplaced _ hplaced => exact ⟨_, _, hparents hplaced⟩
  | uncopied _ hplaced hcopied =>
    exact ⟨_, _, (hparents hplaced).trans (hcopied.follows.lines hcopied.adds_copied)⟩
  | unbound _ hplaced hcopied hbound =>
    refine ⟨_, _, (hparents hplaced).trans ((hcopied.follows.lines hcopied.adds_copied).trans
      (hbound.follows.lines fun hgrounded => .beside rfl ?_))⟩
    exact manifestAt_of_grown (Job.growing_of_fails_appendLine hbound.outcome hgrounded)
      List.not_mem_nil
  | filed _ hplaced hcopied hbound =>
    exact ⟨_, _, (hparents hplaced).trans
      (lines_filed (hplaced.toiled.left hleft) hscan hmem hcopied hbound)⟩

/-- All that a run reports it has added to the manifest. -/
theorem parts_lined (a : Archivist World) : a.Parts a.Lined where
  prepared hdoes := ⟨_, _, hdoes.lines ((Job.paves_makeDirs _).growing [])⟩
  called hcalled := ⟨_, _, hcalled.lines fun _ => .outside fun hjob => by cases hjob⟩
  noted hworld _ hrecords := ⟨_, _, .refl hworld hrecords⟩
  asked _ _ hasked :=
    have hlines := hasked.lines fun _ => .outside fun hjob => by cases hjob
    ⟨_, _, hlines.log, hlines.reported, hlines.appends⟩
  read hdoes := ⟨_, _, hdoes.lines (Job.growing_ask [] _)⟩
  archived hleft hscan hmem _ hfiling := hfiling.lined hleft hscan hmem
  removed hbuilt hdoes :=
    ⟨_, _, hdoes.follows.lines fun _ => .outside fun _ => ⟨_, _, _, _, hbuilt, hdoes.outcome⟩⟩

end Archivist

end Workbench.Package
