import Workbench.Proofs.Archiving

set_option autoImplicit false

/-! # What the steps of a recorded run go through

The routes of a run are told here for a run that is recorded, by what each step has done to the disk
and what follows in the record. Whatever is to hold of all that a run does, however it ends, need
only be looked at along these ways. -/

namespace Workbench

variable {ε σ α β : Type}

/-! ## Ways to end -/

/-- What succeeds leaves a related state; what fails is related to its failure and the state that it
    leaves. -/
structure Ended (good : σ → σ → Prop) (bad : σ → ε → σ → Prop) (s : σ)
    (outcome : Except ε α × σ) : Prop where
  yields : ∀ a, outcome.1 = .ok a → good s outcome.2
  fails : ∀ e, outcome.1 = .error e → bad s e outcome.2

/-- What fails after something that succeeded fails in the same way as a whole. -/
def Passes (good : σ → σ → Prop) (bad : σ → ε → σ → Prop) : Prop :=
  ∀ s s₁ e s', good s s₁ → bad s₁ e s' → bad s e s'

/-- Carried out from any state, a step ends in these ways. -/
def Ends (good : σ → σ → Prop) (bad : σ → ε → σ → Prop) (step : ExceptT ε (StateM σ) α) : Prop :=
  ∀ s, Ended good bad s (resultOf step s)

section Ends

variable {good : σ → σ → Prop} {bad : σ → ε → σ → Prop} {s s' : σ} {a : α} {e : ε}

theorem ended_ok (h : good s s') :
    Ended good bad s ((.ok a : Except ε α), s') where
  yields _ _ := h
  fails _ he := by cases he

theorem ended_error (h : bad s e s') : Ended good bad s ((.error e : Except ε α), s') where
  yields _ ha := by cases ha
  fails _ he := by
    cases he
    exact h

variable [IsPreorder σ good] {step : ExceptT ε (StateM σ) α} {rest : α → ExceptT ε (StateM σ) β}

theorem ends_pure (a : α) : Ends good bad (pure a : ExceptT ε (StateM σ) α) :=
  fun s => ended_ok (refl_of good s)

theorem Ended.after (hbad : Passes good bad) {s₁ : σ} (hgood : good s s₁)
    {outcome : Except ε α × σ} (h : Ended good bad s₁ outcome) : Ended good bad s outcome where
  yields a ha := trans_of good hgood (h.yields a ha)
  fails e he := hbad s s₁ e _ hgood (h.fails e he)

/-- A step that goes on ends as its first part does or as the rest does. -/
theorem Ended.bind (hbad : Passes good bad)
    (h : Ended good bad s (resultOf step s))
    (hrest : ∀ a s₁, Yields step s a s₁ → Ended good bad s₁ (resultOf (rest a) s₁)) :
    Ended good bad s (resultOf (step >>= rest) s) := by
  rw [resultOf_bind]
  rcases hstep : resultOf step s with ⟨e | a, s₁⟩ <;> rw [hstep] at h
  · exact ended_error (h.fails e rfl)
  · exact (hrest a s₁ hstep).after hbad (h.yields a rfl)

theorem Ends.bind (hbad : Passes good bad)
    (h : Ends good bad step) (hrest : ∀ a, Ends good bad (rest a)) :
    Ends good bad (step >>= rest) :=
  fun s => (h s).bind hbad fun a s₁ _ => hrest a s₁

/-- A loop ends as its rounds do. -/
theorem ends_forIn (hbad : Passes good bad)
    {list : List α} {body : α → PUnit → ExceptT ε (StateM σ) (ForInStep PUnit)}
    (h : ∀ a ∈ list, ∀ u, Ends good bad (body a u)) (u : PUnit) :
    Ends good bad (forIn list u body) := by
  induction list generalizing u with
  | nil => exact ends_pure u
  | cons a list ih =>
    rw [List.forIn_cons]
    refine (h a List.mem_cons_self u).bind hbad fun next => ?_
    cases next with
    | done v => exact ends_pure v
    | yield v => exact ih (fun b hb => h b (List.mem_cons_of_mem a hb)) v

/-- What is good may be the worst, too. -/
theorem passes_self : Passes good fun s (_ : ε) s' => good s s' :=
  fun _ _ _ _ h h' => trans_of good h h'

omit [IsPreorder σ good] in
theorem Ended.leads {outcome : Except ε α × σ}
    (h : Ended good (fun s (_ : ε) s' => good s s') s outcome) : good s outcome.2 := by
  rcases hresult : outcome.1 with e | a
  · exact h.fails e hresult
  · exact h.yields a hresult

end Ends

/-- In a situation, states are related and the situation lasts. -/
def Within (situation : σ → Prop) (rel : σ → σ → Prop) (s s' : σ) : Prop :=
  situation s → situation s' ∧ rel s s'

instance (situation : σ → Prop) (rel : σ → σ → Prop) [IsPreorder σ rel] :
    IsPreorder σ (Within situation rel) where
  refl s h := ⟨h, refl_of rel s⟩
  trans _ _ _ h h' hs :=
    have hfirst := h hs
    have hthen := h' hfirst.1
    ⟨hthen.1, trans_of rel hfirst.2 hthen.2⟩

namespace Package

open Host (Disk Job Location)

variable {World : Type} {d d' d₁ d₂ d₃ : Draft (Recorded World)}

namespace Archivist

/-- The files that are written where a work directory is archived. -/
def filesFor (a : Archivist World) (w : WorkDir) : List String :=
  a.manifestPath :: w.archives.map fun entry => a.storeFile entry.1

/-- A job of a run is recorded, whatever comes of it. -/
structure Does (a : Archivist World) (job : Job α) (d : Draft (Recorded World))
    (result : Except Host.Error α) (d' : Draft (Recorded World)) : Prop where
  outcome : resultOf job (a.diskOf d) = (result, a.diskOf d')
  follows : a.Follows .job d d'

/-- A package was built, with success and a work directory. -/
structure Builds (a : Archivist World) (package work : String) (d d' : Draft (Recorded World)) :
    Prop where
  follows : a.Follows (.build package (some work)) d d'
  succeeds : ∃ printout, a.builder.build d.world.1 package = (.ok printout, d'.world.1) ∧
    printout.success = true ∧ printout.workDir? = some work

/-- What archiving one archive can come to. -/
inductive Filing (a : Archivist World) (w : WorkDir) (importPath archive : String)
    (d : Draft (Recorded World)) : Except Host.Error Unit × Draft (Recorded World) → Prop
  /-- It was done before. -/
  | known : importPath ∈ d.progress.archived → Filing a w importPath archive d (.ok (), d)
  /-- The directory for it could not be made. -/
  | unplaced {e : Host.Error} {d₁ : Draft (Recorded World)} : importPath ∉ d.progress.archived →
      a.Does (Job.makeParents (a.storeFile importPath)) d (.error e) d₁ →
      Filing a w importPath archive d (.error e, d₁)
  /-- It could not be copied. -/
  | uncopied {e e' : Host.Error} {d₁ d₂ : Draft (Recorded World)} :
      importPath ∉ d.progress.archived →
      a.Does (Job.makeParents (a.storeFile importPath)) d (.ok ()) d₁ →
      a.Does (Job.copy archive (a.storeFile importPath)) d₁ (.error e) d₂ →
      Filing a w importPath archive d (.error e', d₂)
  /-- It could not be bound. -/
  | unbound {e : Host.Error} {d₁ d₂ d₃ : Draft (Recorded World)} :
      importPath ∉ d.progress.archived →
      a.Does (Job.makeParents (a.storeFile importPath)) d (.ok ()) d₁ →
      a.Does (Job.copy archive (a.storeFile importPath)) d₁ (.ok ()) d₂ →
      a.Does (Manifest.append a.manifestPath (a.recordOf w importPath)) d₂ (.error e) d₃ →
      Filing a w importPath archive d (.error e, d₃)
  | filed {d₁ d₂ d₃ : Draft (Recorded World)} : importPath ∉ d.progress.archived →
      a.Does (Job.makeParents (a.storeFile importPath)) d (.ok ()) d₁ →
      a.Does (Job.copy archive (a.storeFile importPath)) d₁ (.ok ()) d₂ →
      a.Does (Manifest.append a.manifestPath (a.recordOf w importPath)) d₂ (.ok ()) d₃ →
      Filing a w importPath archive d (.ok (), d₃.filed (a.recordOf w importPath))

/-- What building a package can come to. -/
inductive Building (a : Archivist World) (package : String) (d : Draft (Recorded World)) :
    Except Host.Error Unit × Draft (Recorded World) → Prop
  /-- The build has announced no work directory. -/
  | unannounced {output : String} {d₁ : Draft (Recorded World)} :
      a.Follows (.build package none) d d₁ → Building a package d (.ok (), d₁.failed package output)
  /-- The build has failed, and its work directory was removed. -/
  | unbuilt {work output : String} {d₁ d₂ : Draft (Recorded World)} :
      a.Follows (.build package (some work)) d d₁ → a.Does (removal work) d₁ (.ok ()) d₂ →
      Building a package d (.ok (), d₂.failed package output)
  /-- What the build has left could not be archived. -/
  | unarchived {work : String} {e : Host.Error} {d₁ d₂ d₃ : Draft (Recorded World)} :
      a.Builds package work d d₁ → Fails (a.recorded.archiveAll work package) d₁ e d₂ →
      a.Does (removal work) d₂ (.ok ()) d₃ → Building a package d (.error e, d₃)
  | built {work : String} {d₁ d₂ d₃ : Draft (Recorded World)} :
      a.Builds package work d d₁ → Yields (a.recorded.archiveAll work package) d₁ () d₂ →
      a.Does (removal work) d₂ (.ok ()) d₃ → Building a package d (.ok (), d₃.built package)

variable {a : Archivist World} (hdisk : ∀ w d, a.disk.get (a.disk.set w d) = d)

include hdisk in
theorem does_of_onDisk {job : Job α} {result : Except Host.Error α}
    (h : resultOf (a.recorded.onDisk job) d = (result, d')) : a.Does job d result d' := by
  obtain ⟨hjob, hfollows⟩ := follows_of_onDisk hdisk h
  exact ⟨hjob, hfollows⟩

include hdisk in
theorem does_onDisk (job : Job α) (d : Draft (Recorded World)) :
    a.Does job d (resultOf (a.recorded.onDisk job) d).1 (resultOf (a.recorded.onDisk job) d).2 :=
  does_of_onDisk hdisk rfl

include hdisk in
/-- A job that yields yields what it yields on the disk. -/
theorem does_of_yields {job : Job α} {answer : α} (h : Yields (a.recorded.onDisk job) d answer d') :
    a.Does job d (.ok answer) d' := does_of_onDisk hdisk h

include hdisk in
theorem does_of_fails {job : Job α} {e : Host.Error} (h : Fails (a.recorded.onDisk job) d e d') :
    a.Does job d (.error e) d' := does_of_onDisk hdisk h

include hdisk in
/-- Archiving an archive comes to one of these. -/
theorem filing (w : WorkDir) (importPath archive : String) (d : Draft (Recorded World)) :
    a.Filing w importPath archive d (resultOf (a.recorded.archiveOne w importPath archive) d) := by
  have hroute := a.recorded.archiveRoute w importPath archive d
  generalize resultOf (a.recorded.archiveOne w importPath archive) d = outcome at hroute ⊢
  cases hroute with
  | known hknown => exact .known hknown
  | unplaced hnew hparents => exact .unplaced hnew (does_of_fails hdisk hparents)
  | uncopied hnew hparents hcopy =>
    exact .uncopied hnew (does_of_yields hdisk hparents) (does_of_fails hdisk hcopy)
  | unbound hnew hparents hcopy happend =>
    exact .unbound hnew (does_of_yields hdisk hparents) (does_of_yields hdisk hcopy)
      (does_of_fails hdisk happend)
  | filed hnew hparents hcopy happend =>
    exact .filed hnew (does_of_yields hdisk hparents) (does_of_yields hdisk hcopy)
      (does_of_yields hdisk happend)

/-- What is recorded was done in the world. -/
theorem eq_of_recording {cause : α → Cause} {act : World → α × World} {result : α}
    (h : Yields (inWorld (a.recording cause act)) d result d') :
    act d.world.1 = (result, d'.world.1) := by
  rw [Yields, resultOf_inWorld] at h
  obtain ⟨hresult, rfl⟩ := Prod.mk.inj h
  exact Prod.ext (Except.ok.inj hresult) rfl

include hdisk in
/-- Building a package comes to one of these. -/
theorem building (package : String) (d : Draft (Recorded World)) :
    a.Building package d (resultOf (a.recorded.buildPackage package) d) := by
  have hbuilds : ∀ {printout : Printout} {work : String} {d₁ : Draft (Recorded World)},
      Yields (inWorld (a.recorded.builder.build · package)) d (.ok printout) d₁ →
      printout.success = true → printout.workDir? = some work → a.Builds package work d d₁ := by
    intro printout work d₁ hbuild hsuccess hwork
    have hrecorded : Yields (inWorld (a.recording
        (fun answer => .build package (answer.toOption.bind Printout.workDir?))
        (a.builder.build · package))) d (.ok printout) d₁ := hbuild
    exact ⟨hwork ▸ follows_of_build hbuild, printout, eq_of_recording hrecorded, hsuccess, hwork⟩
  have hroute := a.recorded.buildRoute package d
  generalize resultOf (a.recorded.buildPackage package) d = outcome at hroute ⊢
  cases hroute with
  | unannounced hbuild hnone => exact .unannounced (hnone ▸ follows_of_build hbuild)
  | unbuilt hbuild _ hwork hdiscard =>
    exact .unbuilt (hwork ▸ follows_of_build hbuild) (does_of_yields hdisk hdiscard)
  | unarchived hbuild hsuccess hwork hfails hdiscard =>
    exact .unarchived (hbuilds hbuild hsuccess hwork) hfails (does_of_yields hdisk hdiscard)
  | built hbuild hsuccess hwork hyields hdiscard =>
    exact .built (hbuilds hbuild hsuccess hwork) hyields (does_of_yields hdisk hdiscard)

/-! ## Whole runs -/

variable {good : Draft (Recorded World) → Draft (Recorded World) → Prop}
  {bad : Draft (Recorded World) → Host.Error → Draft (Recorded World) → Prop}

/-- All that a run does ends in these ways: what it does itself, what the builder does, and what is
    only noted. -/
structure Covered (a : Archivist World)
    (good : Draft (Recorded World) → Draft (Recorded World) → Prop)
    (bad : Draft (Recorded World) → Host.Error → Draft (Recorded World) → Prop) : Prop where
  prepare : ∀ {d d' result}, a.Does (Job.makeDirs a.storeDir) d result d' →
    Ended good bad d (result, d')
  called : ∀ {d d'}, a.Follows .call d d' → good d d'
  unlisted : ∀ {d d' e}, a.Follows .call d d' →
    a.builder.listStandard d.world.1 = (.error e, d'.world.1) → bad d e d'
  failed : ∀ d package output, good d (d.failed package output)
  skipped : ∀ d package, package ∈ d.progress.tried ∨ package ∈ d.progress.archived →
    good d (d.skipped package)
  built : ∀ {d package outcome}, package ∉ d.progress.tried → package ∉ d.progress.archived →
    a.Building package (d.tried package) outcome → Ended good bad d outcome

variable [IsPreorder _ good] (hbad : Passes good bad)

include hbad in
/-- Archiving what is in a work directory ends as reading the directory and archiving each of the
    archives do. -/
theorem ended_archiveAll {work package : String} {d : Draft (Recorded World)}
    (hscan : Ended good bad d (resultOf (a.recorded.onDisk
      (Job.ask (WorkDir.scan · work package))) d))
    (hfile : ∀ w d₁, Yields (a.recorded.onDisk (Job.ask (WorkDir.scan · work package))) d w d₁ →
      ∀ entry ∈ w.archives, Ends good bad (a.recorded.archiveOne w entry.1 entry.2)) :
    Ended good bad d (resultOf (a.recorded.archiveAll work package) d) := by
  refine hscan.bind hbad fun w d₁ hread => ?_
  refine (ends_forIn hbad (fun entry hentry u => ?_) _).bind hbad (fun _ => ends_pure _) d₁
  exact (hfile w d₁ hread entry hentry).bind hbad fun _ => ends_pure _

namespace Covered

variable (h : a.Covered good bad)

omit [IsPreorder _ good] in
include hdisk h in
theorem process (package : String) : Ends good bad (a.recorded.process package) := by
  intro d
  rw [resultOf_process]
  split
  · next hknown =>
    refine ended_ok (h.skipped d package ?_)
    simpa using hknown
  · next hnew =>
    simp only [Bool.or_eq_true, List.contains_iff_mem, not_or] at hnew
    exact h.built hnew.1 hnew.2 (building hdisk package (d.tried package))

include h in
theorem ensureAvailable (package : String) :
    Ends good bad (a.recorded.ensureAvailable package) := by
  intro d
  have hcall : ∀ {β : Type} (act : World → β × World) {answer : β} {d d' : Draft (Recorded World)},
      Yields (inWorld (a.recording (fun _ => .call) act)) d answer d' → good d d' :=
    fun _ _ _ _ hyields => h.called (follows_of_recording hyields)
  have hroute := a.recorded.readyRoute package d
  generalize resultOf (a.recorded.ensureAvailable package) d = outcome at hroute ⊢
  cases hroute with
  | unknown hthere | there hthere => exact ended_ok (hcall (a.builder.isAvailable · package) hthere)
  | fetched hthere hfetch =>
    exact ended_ok (trans_of good (hcall (a.builder.isAvailable · package) hthere)
      (hcall (a.builder.fetch · package) hfetch))

include hdisk h hbad in
theorem serve (target : Target) : Ends good bad (a.recorded.serve target) := by
  cases target with
  | standard =>
    intro d
    obtain ⟨result, d₁, hlist⟩ :=
      exists_yields_inWorld (a.recording (fun _ => .call) a.builder.listStandard) d
    have hcalled := follows_of_recording hlist
    have hfirst : resultOf (inWorld a.recorded.builder.listStandard) d = (.ok result, d₁) := hlist
    rw [Archivist.serve, resultOf_bind, hfirst, goOnWith]
    cases result with
    | error e => exact ended_error (h.unlisted hcalled (eq_of_recording hlist))
    | ok packages =>
      refine Ended.after hbad (h.called hcalled) ?_
      refine (ends_forIn hbad (fun package _ u => ?_) _).bind hbad (fun _ => ends_pure _) d₁
      exact (h.process hdisk package).bind hbad fun _ => ends_pure _
  | package name =>
    refine (h.ensureAvailable name).bind hbad fun result => ?_
    cases result with
    | none => exact h.process hdisk name
    | some output => exact fun d => ended_ok (h.failed d name output)

include hdisk h hbad in
/-- What covers all that a run does covers the run. -/
theorem steps (targets : List Target) : Ends good bad (a.recorded.steps targets) := by
  have hprepare : Ends good bad (a.recorded.onDisk (Job.makeDirs a.storeDir)) :=
    fun d => h.prepare (does_onDisk hdisk _ d)
  refine hprepare.bind hbad fun _ => ?_
  refine (ends_forIn hbad (fun target _ u => ?_) _).bind hbad fun _ => ends_pure _
  exact (h.serve hdisk hbad target).bind hbad fun _ => ends_pure _

end Covered

/-! ## Part by part -/

/-- All parts of a run lead to related drafts, whatever comes of them. -/
structure Parts (a : Archivist World)
    (good : Draft (Recorded World) → Draft (Recorded World) → Prop) : Prop where
  prepared : ∀ {d d' result}, a.Does (Job.makeDirs a.storeDir) d result d' → good d d'
  called : ∀ {d d'}, a.Follows .call d d' → good d d'
  noted : ∀ {d d'}, d'.world = d.world → d'.progress = d.progress →
    d'.report.records = d.report.records → good d d'
  asked : ∀ {d d' package work?}, package ∉ d.progress.tried → package ∉ d.progress.archived →
    a.Follows (.build package work?) (d.tried package) d' → good d d'
  read : ∀ {d d' work package result},
    a.Does (Job.ask (WorkDir.scan · work package)) d result d' → good d d'
  archived : ∀ {d package work built w importPath archive outcome}, Left d.log package work built →
    WorkDir.scan built work package = .ok w → (importPath, archive) ∈ w.archives →
    Job.Growing (a.filesFor w) built (a.diskOf d) →
    a.Filing w importPath archive d outcome → good d outcome.2
  removed : ∀ {d d' package work start built},
    ⟨.build package (some work), start, built⟩ ∈ d.log → a.Does (removal work) d (.ok ()) d' →
    good d d'

/-- Nothing was done but jobs of the run itself. -/
def Toiled (d d' : Draft (Recorded World)) : Prop :=
  ∃ jobs, d'.log = d.log ++ jobs ∧ ∀ deed ∈ jobs, deed.cause = .job

instance : IsPreorder (Draft (Recorded World)) Toiled where
  refl _ := ⟨[], by simp, by simp⟩
  trans _ _ _ := by
    rintro ⟨jobs, hlog, hjobs⟩ ⟨jobs', hlog', hjobs'⟩
    refine ⟨jobs ++ jobs', by rw [hlog', hlog, List.append_assoc], fun deed hdeed => ?_⟩
    exact (List.mem_append.1 hdeed).elim (hjobs deed) (hjobs' deed)

theorem Does.toiled {job : Job α} {result : Except Host.Error α} (h : a.Does job d result d') :
    Toiled d d' :=
  ⟨_, h.follows.log, by simp⟩

/-- What a build has left lasts while nothing but jobs is done. -/
theorem Toiled.left (h : Toiled d d') {package work : String} {built : Disk}
    (hleft : Left d.log package work built) : Left d'.log package work built := by
  obtain ⟨more, hlog', hmore⟩ := h
  obtain ⟨early, start, jobs, hlog, hjobs⟩ := hleft
  refine ⟨early, start, jobs ++ more, ?_, fun deed hdeed => ?_⟩
  · rw [hlog', hlog, List.append_assoc, List.cons_append]
  · exact (List.mem_append.1 hdeed).elim (hjobs deed) (hmore deed)

theorem Filing.toiled {w : WorkDir} {importPath archive : String}
    {outcome : Except Host.Error Unit × Draft (Recorded World)}
    (h : a.Filing w importPath archive d outcome) : Toiled d outcome.2 := by
  cases h with
  | known => exact refl_of Toiled d
  | unplaced _ hplaced => exact hplaced.toiled
  | uncopied _ hplaced hcopied => exact trans_of Toiled hplaced.toiled hcopied.toiled
  | unbound _ hplaced hcopied hbound | filed _ hplaced hcopied hbound =>
    exact trans_of Toiled hplaced.toiled (trans_of Toiled hcopied.toiled hbound.toiled)

theorem Does.growing {texts : List String} {job : Job α} {result : Except Host.Error α}
    (h : a.Does job d result d') (hgrows : Leads (Job.Growing texts) job) :
    Job.Growing texts (a.diskOf d) (a.diskOf d') := by
  have hgrown := hgrows (a.diskOf d)
  rwa [h.outcome] at hgrown

/-- Archiving an archive changes no file but the manifest and the one for it in the store. -/
theorem Filing.growing {w : WorkDir} {importPath archive : String}
    {outcome : Except Host.Error Unit × Draft (Recorded World)}
    (h : a.Filing w importPath archive d outcome) (hmem : (importPath, archive) ∈ w.archives) :
    Job.Growing (a.filesFor w) (a.diskOf d) (a.diskOf outcome.2) := by
  have hparents : Leads (Job.Growing (a.filesFor w)) (Job.makeParents (a.storeFile importPath)) :=
    (Job.paves_makeParents _).growing _
  have hcopy : Leads (Job.Growing (a.filesFor w)) (Job.copy archive (a.storeFile importPath)) := by
    refine fun disk => (Job.growing_copy archive (a.storeFile importPath) disk).mono ?_
    have hfile : a.storeFile importPath ∈ a.filesFor w :=
      List.mem_cons_of_mem _ (List.mem_map.2 ⟨_, hmem, rfl⟩)
    simpa using hfile
  have hbind : Leads (Job.Growing (a.filesFor w))
      (Manifest.append a.manifestPath (a.recordOf w importPath)) := by
    refine fun disk => (Job.growing_appendLine _ _ disk).mono ?_
    exact List.cons_subset_cons _ (List.nil_subset _)
  cases h with
  | known => exact refl_of (Job.Growing (a.filesFor w)) (a.diskOf d)
  | unplaced _ hplaced => exact hplaced.growing hparents
  | uncopied _ hplaced hcopied =>
    exact trans_of (Job.Growing (a.filesFor w)) (hplaced.growing hparents) (hcopied.growing hcopy)
  | unbound _ hplaced hcopied hbound | filed _ hplaced hcopied hbound =>
    exact trans_of (Job.Growing (a.filesFor w)) (hplaced.growing hparents)
      (trans_of (Job.Growing (a.filesFor w)) (hcopied.growing hcopy) (hbound.growing hbind))

omit hbad in
include hdisk in
theorem toiled_archiveAll (work package : String) :
    Leads Toiled (a.recorded.archiveAll work package) := by
  intro d
  refine (ended_archiveAll passes_self ?_ fun w d₁ _ entry _ d₂ => ?_).leads
  · have hdoes := does_onDisk hdisk (Job.ask (WorkDir.scan · work package)) d
    exact ⟨fun _ _ => hdoes.toiled, fun _ _ => hdoes.toiled⟩
  · have hfiling := filing hdisk w entry.1 entry.2 d₂
    exact ⟨fun _ _ => hfiling.toiled, fun _ _ => hfiling.toiled⟩

namespace Parts

omit hbad in
include hdisk in
/-- What a build has left is archived. -/
theorem archiveAll (h : a.Parts good) {package work : String}
    (hleft : Left d.log package work (a.diskOf d)) :
    Left (resultOf (a.recorded.archiveAll work package) d).2.log package work (a.diskOf d) ∧
      good d (resultOf (a.recorded.archiveAll work package) d).2 := by
  -- since the build, the run itself has written to no other files than those for its archives
  let since : Draft (Recorded World) → Prop := fun d' =>
    Left d'.log package work (a.diskOf d) ∧ ∀ w, WorkDir.scan (a.diskOf d) work package = .ok w →
      Job.Growing (a.filesFor w) (a.diskOf d) (a.diskOf d')
  have hends : Ended (Within since good) (fun d₁ _ d₂ => Within since good d₁ d₂) d
      (resultOf (a.recorded.archiveAll work package) d) := by
    refine ended_archiveAll passes_self ?_ fun w d₁ hread entry hentry d₂ => ?_
    · have hdoes := does_onDisk hdisk (Job.ask (WorkDir.scan · work package)) d
      have hleads : Within since good d
          (resultOf (a.recorded.onDisk (Job.ask (WorkDir.scan · work package))) d).2 :=
        fun hsince => ⟨⟨hdoes.toiled.left hsince.1, fun w hw => trans_of
          (Job.Growing (a.filesFor w)) (hsince.2 w hw) (hdoes.growing (Job.growing_ask _ _))⟩,
          h.read hdoes⟩
      exact ⟨fun _ _ => hleads, fun _ _ => hleads⟩
    · have hscan := (Job.yields_ask_iff.1 (does_of_yields hdisk hread).outcome).1
      have hfiling := filing hdisk w entry.1 entry.2 d₂
      have hleads : Within since good d₂
          (resultOf (a.recorded.archiveOne w entry.1 entry.2) d₂).2 := by
        refine fun hsince => ⟨⟨hfiling.toiled.left hsince.1, fun w' hw => ?_⟩,
          h.archived hsince.1 hscan hentry (hsince.2 w hscan) hfiling⟩
        obtain rfl := Except.ok.inj (hscan.symm.trans hw)
        exact trans_of (Job.Growing (a.filesFor w)) (hsince.2 w hscan) (hfiling.growing hentry)
      exact ⟨fun _ _ => hleads, fun _ _ => hleads⟩
  have hstart : since d := ⟨hleft, fun w _ => refl_of (Job.Growing (a.filesFor w)) (a.diskOf d)⟩
  exact (hends.leads hstart).imp_left And.left

omit hbad in
include hdisk in
theorem building (h : a.Parts good) {package : String}
    {outcome : Except Host.Error Unit × Draft (Recorded World)}
    (htried : package ∉ d.progress.tried) (harchived : package ∉ d.progress.archived)
    (hbuilding : a.Building package (d.tried package) outcome) : good d outcome.2 := by
  have hleft : ∀ {work : String} {d₁ : Draft (Recorded World)},
      a.Follows (.build package (some work)) (d.tried package) d₁ →
      Left d₁.log package work (a.diskOf d₁) :=
    fun hbuilt => ⟨_, _, [], hbuilt.log, by simp⟩
  have hremoved : ∀ {work : String} {built : Disk} {d₁ d₂ : Draft (Recorded World)},
      Left d₁.log package work built → a.Does (removal work) d₁ (.ok ()) d₂ → good d₁ d₂ := by
    intro work built d₁ d₂ hleft hremoval
    obtain ⟨start, hmem⟩ := hleft.built_mem
    exact h.removed hmem hremoval
  cases hbuilding with
  | unannounced hbuilt =>
    refine trans_of good (h.asked htried harchived hbuilt) ?_
    exact h.noted rfl rfl rfl
  | unbuilt hbuilt hremoval =>
    refine trans_of good (h.asked htried harchived hbuilt) ?_
    refine trans_of good (hremoved (hleft hbuilt) hremoval) ?_
    exact h.noted rfl rfl rfl
  | unarchived hbuilt hfails hremoval =>
    refine trans_of good (h.asked htried harchived hbuilt.follows) ?_
    have harchive := h.archiveAll hdisk (hleft hbuilt.follows)
    rw [hfails] at harchive
    exact trans_of good harchive.2 (hremoved harchive.1 hremoval)
  | built hbuilt hyields hremoval =>
    refine trans_of good (h.asked htried harchived hbuilt.follows) ?_
    have harchive := h.archiveAll hdisk (hleft hbuilt.follows)
    rw [hyields] at harchive
    refine trans_of good harchive.2 (trans_of good (hremoved harchive.1 hremoval) ?_)
    exact h.noted rfl rfl rfl

omit hbad in
include hdisk in
/-- What all parts of a run lead to, the run leads to. -/
theorem steps (h : a.Parts good) (targets : List Target) :
    Leads good (a.recorded.steps targets) := by
  have hcovered : a.Covered good fun d _ d' => good d d' :=
    { prepare hdoes := ⟨fun _ _ => h.prepared hdoes, fun _ _ => h.prepared hdoes⟩
      called hcalled := h.called hcalled
      unlisted hcalled _ := h.called hcalled
      failed _ _ _ := h.noted rfl rfl rfl
      skipped _ _ _ := h.noted rfl rfl rfl
      built htried harchived hbuilding :=
        ⟨fun _ _ => h.building hdisk htried harchived hbuilding,
          fun _ _ => h.building hdisk htried harchived hbuilding⟩ }
  exact fun d => (hcovered.steps hdisk passes_self targets d).leads

end Parts

end Archivist

end Package

end Workbench
