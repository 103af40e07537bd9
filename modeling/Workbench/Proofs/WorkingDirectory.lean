import Workbench.Proofs.FollowedDescriptors
import Workbench.Proofs.StorePaths

set_option autoImplicit false

/-! # The working directory

The working directory is kept as a path, beside the table of nodes. Changing it requires a directory
at the path. From then on the directory is there until it is removed, or until it, or a directory
above it, is moved: descriptors follow such a move, and the working directory does not. As long as
it is there a name without slashes can be looked up, and a file can be created under it. -/

namespace Workbench

/-- What a working directory makes of a dot. -/
theorem Path.resolve_dot (cwd : Path) :
    ∃ p, cwd.resolve "." = .ok p ∧ p.parts = cwd.parts ∧ p.trailing = true := by
  have hscan : cwd.resolve "." = scan cwd "." := by
    rw [Path.resolve, if_neg (by decide), if_neg (by decide)]
  obtain ⟨p, hp, hparts, htrailing⟩ := scan_eq_ok cwd (show '\x00' ∉ ".".toList by decide)
  have hpieces : pieces "." = ["."] := by decide
  rw [hpieces] at hparts htrailing
  exact ⟨p, hscan.trans hp, hparts, htrailing.trans (Bool.true_or _)⟩

/-- What a working directory makes of a name. -/
theorem Path.resolve_name (cwd : Path) {name : String} (h : isComponent name = true) :
    ∃ p, cwd.resolve name = .ok p ∧ p.parts = cwd.parts ++ [name] ∧ p.trailing = false := by
  have hpieces : pieces name = [name] := Package.pieces_of_isComponent h
  obtain ⟨hempty, hdot, hdots⟩ := plain_of_isComponent h
  have hrelative : ¬ isAbsolute name = true := by
    intro habsolute
    rw [isAbsolute, decide_eq_true_eq] at habsolute
    exact slash_notMem_of_isComponent h (List.mem_of_head? habsolute)
  have hscan : cwd.resolve name = scan cwd name := by
    rw [Path.resolve, if_neg hempty, if_neg hrelative]
  obtain ⟨p, hp, hparts, htrailing⟩ := scan_eq_ok cwd (nul_notMem_of_isComponent h)
  rw [hpieces] at hparts htrailing
  rw [List.foldl_cons, List.foldl_nil, enter_of_isComponent _ h] at hparts
  refine ⟨p, hscan.trans hp, hparts, htrailing.trans ?_⟩
  simp [spellsDirectory, hempty, hdot, hdots, hparts]

namespace FileSystem

variable {World : Type} {v : View} {fs fs' : FileSystem} {p : Path}

/-- An operation is to take the working directory away: to remove it, or to move it or a directory
    above it. -/
def Operation.Unseats (fs : FileSystem) : Operation → Prop
  | .removeDir path => fs.Names path fs.cwd
  | .rename source target => ∃ s t, fs.resolve source = .ok s ∧ fs.resolve target = .ok t ∧
      s.parts ≠ t.parts ∧ s.parts <+: fs.cwd.parts
  | _ => False

/-! ## What keeps the working directory -/

/-- Nodes may be put in whatever way. -/
theorem tolerant_cwd : Tolerant (fun _ _ => True) fun fs fs' => fs'.cwd = fs.cwd where
  refl _ := rfl
  trans h h' := h'.trans h
  putDir fs p := (OnlyNodes.putDir fs p).cwd
  putFile fs p data _ := (OnlyNodes.putFile fs p data).cwd

theorem cwd_carryOut (fs : FileSystem) (move : Move) : (fs.carryOut move).2.cwd = fs.cwd := by
  cases move with
  | none => rfl
  | file source target => exact (OnlyNodes.relink _ source target).cwd
  | dir source target =>
    rw [carryOut]
    rcases followDir source target fs.descriptors with ⟨result, descriptors⟩
    cases result with
    | error e => rfl
    | ok => exact (OnlyNodes.relink _ source target).cwd

/-- No operation but one changes the working directory. -/
theorem cwd_perform (mount : Option (Asset.Mount World)) (fs : FileSystem) (world : World)
    {op : Operation} (hop : ∀ path, op ≠ .chdir path) :
    (fs.perform mount world op).2.1.cwd = fs.cwd := by
  cases op with
  | chdir path => exact absurd rfl (hop path)
  | openPath path mode =>
    exact tolerant_cwd.withFetched (fun _ _ _ _ _ _ _ _ _ => trivial) fun _ _ =>
      tolerant_cwd.openLocal (fun _ _ _ => trivial) (fun _ _ _ _ _ _ => rfl) fun _ _ => rfl
  | close number =>
    refine tolerant_cwd.settle fun fs' hok => ?_
    rcases close_eq_ok_iff.1 hok with ⟨-, rfl⟩ | ⟨-, -, rfl⟩ <;> rfl
  | read number length position =>
    show (fs.read number length position).2.cwd = fs.cwd
    have houtcome := read_outcome fs number length position
    generalize fs.read number length position = outcome at houtcome ⊢
    cases houtcome <;> rfl
  | write number data position =>
    rw [perform]
    split
    · next n fs' hwrite => cases (written_of_write hwrite).2 <;> rfl
    · rfl
  | stat path => exact (OnlyNodes.stat mount fs world path).cwd
  | readAll path => exact (OnlyNodes.readAll mount fs world path).cwd
  | truncateDescriptor number length =>
    exact tolerant_cwd.settle fun _ hok => (OnlyNodes.truncateDescriptor hok).cwd
  | truncate path length => exact tolerant_cwd.settle fun _ hok => (OnlyNodes.truncate hok).cwd
  | makeDir path recursive => exact (OnlyNodes.makeDir fs path recursive).cwd
  | removeDir path => exact tolerant_cwd.settle fun _ hok => (OnlyNodes.removeDir hok).cwd
  | unlink path => exact tolerant_cwd.settle fun _ hok => (OnlyNodes.unlink hok).cwd
  | rename source target =>
    rcases rename_left fs source target with hleft | ⟨move, -, hleft⟩
    · rw [perform, finish, hleft]
    · rw [perform, finish, hleft, cwd_carryOut]
  | setTimes path accessed modified => exact tolerant_cwd.settle fun _ hok => (OnlyNodes.setTimes hok).cwd
  | writeFile path data => exact (OnlyNodes.writeFile fs path data).cwd
  | statDescriptor | readDir | contains | cwd | resolve => rfl
  | takeStdout | takeStderr | clearOutput => rfl

/-! ## What takes it away -/

/-- Directories stay directories when nodes are changed into nodes of their kind. -/
theorem isDir_update (fs : FileSystem) (key : String) {f : Node → Node}
    (hf : ∀ node, (f node).isDir = node.isDir) (q : Path) :
    ({ fs with nodes := fs.nodes.update key f } : FileSystem).isDir q = fs.isDir q := by
  rw [isDir, Dictionary.get?_update, isDir]
  split
  · cases fs.nodes.get? q.dirKey with
    | none => rfl
    | some node => exact hf node
  · rfl

theorem isDir_link (fs : FileSystem) (p q : Path) : (fs.link p).isDir q = fs.isDir q := by
  unfold link
  split
  · exact isDir_update fs _ (Node.isDir_addName _ _) q
  · rfl

theorem isDir_unlinkName (fs : FileSystem) (p q : Path) :
    (fs.unlinkName p).isDir q = fs.isDir q := by
  unfold unlinkName
  split
  · exact isDir_update fs _ (Node.isDir_dropName _ _) q
  · rfl

/-- A directory that was removed is gone. -/
theorem isDir_of_removeDir {text : String} (hnames : fs.Names text p)
    (hok : fs.removeDir text = .ok fs') : fs'.isDir p = false := by
  obtain ⟨q, hq, hparts⟩ := hnames
  obtain ⟨q', node, hq', -, -, -, rfl⟩ := removeDir_eq_ok_iff.1 hok
  obtain rfl : q = q' := Except.ok.inj (hq.symm.trans hq')
  rw [isDir_unlinkName, isDir, remove, Dictionary.get?_remove, if_pos (Path.dirKey_inj.2 hparts)]
  rfl

namespace Shows

/-- Nothing is left of a directory where it was, once it or one above it was moved. -/
theorem isDir_of_rename (h : fs.Shows v) {source target : String} {s t : Path}
    (hs : fs.resolve source = .ok s) (ht : fs.resolve target = .ok t) (hst : s.parts ≠ t.parts)
    (hpre : s.parts <+: p.parts) (hp : fs.isDir p = true)
    (hok : (fs.rename source target).1 = .ok ()) : (fs.rename source target).2.isDir p = false := by
  have hcases := h.rename_cases source target
  generalize fs.rename source target = outcome at hcases hok ⊢
  cases hcases with
  | refused e hplan => cases hok
  | idle s' t' hs' ht' hplan hsame =>
    rw [hs] at hs'
    rw [ht] at ht'
    cases hs'
    cases ht'
    exact absurd hsame hst
  | moved s' t' node nodes table hs' ht' hmovable hplan hnodes htable =>
    rw [hs] at hs'
    rw [ht] at ht'
    cases hs'
    cases ht'
    have haside : ¬ t.parts <+: p.parts := by
      intro hpre
      rw [h.table.isDir_eq, h.tree.none_under hmovable.free hpre] at hp
      cases hp
    have hisDir : ({ fs with nodes := nodes, descriptors := table } : FileSystem).isDir p =
        (v.move s.parts t.parts p.parts).any Node.isDir := hnodes.isDir_eq p
    dsimp only
    rw [relink, isDir_link, isDir_unlinkName, hisDir, View.move_of_source v hpre haside]
    rfl

/-- A place stays where it is through a renaming that does not move what is at it. -/
theorem destination_rename_eq (h : fs.Shows v) {source target : String} {place : List String}
    (hstays : ¬ ((∃ s t, fs.resolve source = .ok s ∧ fs.resolve target = .ok t ∧
      s.parts ≠ t.parts ∧ s.parts <+: place) ∧ (fs.rename source target).1 = .ok ())) :
    Operation.destination fs (.rename source target) place = place := by
  have hcases := h.rename_cases source target
  rw [Operation.destination]
  generalize fs.rename source target = outcome at hcases hstays ⊢
  cases hcases with
  | refused e hplan => rfl
  | idle s t hs ht hplan hsame =>
    rw [hs, ht]
    dsimp only
    split
    · next hpre => rw [← hsame, List.prefix_iff_eq_append.1 hpre]
    · rfl
  | moved s t node nodes table hs ht hmovable hplan hnodes htable =>
    rw [hs, ht]
    refine if_neg fun hpre => hstays ⟨⟨s, t, hs, ht, fun hst => ?_, hpre⟩, rfl⟩
    have hthere := hmovable.there
    rw [hst, hmovable.free] at hthere
    cases hthere

/-- The working directory outlasts every operation that is not to take it away, or is refused. -/
theorem isDir_cwd_of_stays (h : fs.Shows v) (hcwd : fs.isDir fs.cwd = true)
    (mount : Option (Asset.Mount World)) (world : World) {op : Operation}
    (hop : ∀ path, op ≠ .chdir path)
    (hstays : ¬ (op.Unseats fs ∧ ∃ reply, (fs.perform mount world op).1 = .ok reply)) :
    (fs.perform mount world op).2.1.isDir fs.cwd = true := by
  obtain ⟨_, _, hsound⟩ := h.perform mount world op
  obtain ⟨v', hv'⟩ := hsound.tree
  have hkeeps : ¬ op.Ends fs fs.cwd true → op.destination fs fs.cwd.parts = fs.cwd.parts →
      (fs.perform mount world op).2.1.isDir fs.cwd = true := fun hkept hplace =>
    h.has_perform mount world op hv' (show fs.Has fs.cwd true from hcwd) hkept hplace.symm
  cases op with
  | chdir path => exact absurd rfl (hop path)
  | removeDir path =>
    by_cases hnames : fs.Names path fs.cwd
    · -- a directory whose removal is refused stays
      rw [FileSystem.perform] at hstays ⊢
      cases hremove : fs.removeDir path with
      | error e => exact hcwd
      | ok fs' =>
        rw [hremove] at hstays
        exact absurd ⟨hnames, _, rfl⟩ hstays
    · exact hkeeps (fun hends => hnames hends.2) rfl
  | rename source target =>
    refine hkeeps id (h.destination_rename_eq ?_)
    rintro ⟨hunseats, hok⟩
    refine hstays ⟨hunseats, .done, ?_⟩
    show (fs.rename source target).1.map _ = _
    rw [hok]
    rfl
  | unlink path => exact hkeeps (fun hends => Bool.noConfusion hends.1) rfl
  | _ => exact hkeeps id rfl

/-- An operation that is to take the working directory away does so if it is granted. -/
theorem isDir_cwd_of_unseats (h : fs.Shows v) (hcwd : fs.isDir fs.cwd = true)
    (mount : Option (Asset.Mount World)) (world : World) {op : Operation} {reply : Reply}
    (hunseats : op.Unseats fs) (hok : (fs.perform mount world op).1 = .ok reply) :
    (fs.perform mount world op).2.1.isDir fs.cwd = false := by
  cases op with
  | removeDir path =>
    rw [FileSystem.perform] at hok ⊢
    cases hremove : fs.removeDir path with
    | error e =>
      rw [hremove] at hok
      cases hok
    | ok fs' => exact isDir_of_removeDir hunseats hremove
  | rename source target =>
    obtain ⟨s, t, hs, ht, hst, hpre⟩ := hunseats
    refine h.isDir_of_rename hs ht hst hpre hcwd ?_
    change (fs.rename source target).1.map (fun _ => Reply.done) = .ok reply at hok
    cases hrename : (fs.rename source target).1 with
    | error e =>
      rw [hrename] at hok
      cases hok
    | ok => rfl
  | _ => exact hunseats.elim

/-- A directory is at a working directory that was chosen. -/
theorem isDir_cwd_of_chdir {text : String} (hok : fs.chdir text = .ok fs') :
    fs'.isDir fs'.cwd = true := by
  obtain ⟨p, -, hdir, rfl⟩ := chdir_eq_ok_iff.1 hok
  exact hdir

/-- After an operation the working directory is there exactly if the operation was not granted to
    take it away. -/
theorem isDir_cwd_perform_iff (h : fs.Shows v) (hcwd : fs.isDir fs.cwd = true)
    (mount : Option (Asset.Mount World)) (world : World) (op : Operation) :
    (fs.perform mount world op).2.1.isDir (fs.perform mount world op).2.1.cwd = true ↔
      ¬ (op.Unseats fs ∧ ∃ reply, (fs.perform mount world op).1 = .ok reply) := by
  by_cases hchdir : ∃ path, op = .chdir path
  · obtain ⟨path, rfl⟩ := hchdir
    refine iff_of_true ?_ fun hunseats => hunseats.1
    rw [FileSystem.perform]
    cases hok : fs.chdir path with
    | error e => exact hcwd
    | ok fs' => exact isDir_cwd_of_chdir hok
  · have hop : ∀ path, op ≠ .chdir path := fun path heq => hchdir ⟨path, heq⟩
    rw [cwd_perform mount fs world hop]
    constructor
    · rintro hthere ⟨hunseats, reply, hok⟩
      rw [h.isDir_cwd_of_unseats hcwd mount world hunseats hok] at hthere
      cases hthere
    · exact h.isDir_cwd_of_stays hcwd mount world hop

end Shows

/-! ## What a working directory is for -/

/-- What can be done from the working directory by a dot or a name alone. -/
structure Workable (fs : FileSystem) : Prop where
  here : ∃ p, fs.resolve "." = .ok p ∧ p.parts = fs.cwd.parts ∧ fs.isDir p = true
  shown : ∀ {World : Type} (mount : Option (Asset.Mount World)) (world : World),
    ∃ stat, fs.stat mount world "." = (.ok stat, fs, world) ∧ stat.isDir = true
  listed : ∃ names, fs.readDir "." = .ok names
  /-- A file can be written under a name, unless the name is that of a directory. -/
  written : ∀ (name : String) (p : Path) (data : ByteArray), Path.isComponent name = true →
    p.parts = fs.cwd.parts ++ [name] → fs.isDir p = false →
    (fs.writeFile name data).1 = .ok () ∧ (fs.writeFile name data).2.bytesAt p = some data
  /-- A file can be created under a name where nothing is, and no mount has anything to say. -/
  created : ∀ (name : String) (p : Path) (mode : OpenMode) {World : Type}
    (mount : Option (Asset.Mount World)) (world : World), Path.isComponent name = true →
    p.parts = fs.cwd.parts ++ [name] → fs.isDir p = false → fs.isFile p = false →
    (∀ m ∈ mount, m.covers p = false) → mode.create = true →
    ∃ number, (fs.openPath mount world name mode).1 = .ok number ∧
      (fs.openPath mount world name mode).2.1.bytesAt p = some .empty
  /-- So can a directory. -/
  made : ∀ (name : String) (p : Path), Path.isComponent name = true →
    p.parts = fs.cwd.parts ++ [name] → fs.isDir p = false → fs.isFile p = false →
    (fs.makeDir name false).1 = .ok () ∧ (fs.makeDir name false).2.isDir p = true

theorem resolve_eq_ok {text : String} (h : fs.cwd.resolve text = .ok p) :
    fs.resolve text = .ok p := by
  rw [resolve, h]
  rfl

/-- Whether a path stands for an asset does not depend on how it was spelled. -/
theorem covers_congr (m : Asset.Mount World) {p q : Path} (h : p.parts = q.parts) :
    m.covers p = m.covers q := by
  have htext : p.toString = q.toString := Path.toString_inj.2 h
  rw [Asset.Mount.covers, Asset.Mount.covers]
  congr 1
  funext root
  rw [Path.liesUnder, Path.liesUnder, htext]

/-- What holds a path is required to be there, and is. -/
theorem requireParent_eq_ok {d : Path} {name : String} (hp : p.parts = d.parts ++ [name])
    (hd : fs.isDir d = true) : fs.requireParent p = .ok () := by
  obtain ⟨parent, hparent, hparts⟩ := parent?_eq hp
  have hdir : fs.isDir parent = true := by
    rw [isDir, Path.dirKey_inj.2 hparts]
    exact hd
  rw [requireParent, hparent]
  exact if_pos hdir

namespace Shows

/-- Down to a directory there are directories only. -/
theorem passable_of_isDir (h : fs.Shows v) (hp : fs.isDir p = true) : v.Passable p.parts := by
  obtain ⟨names, times, hdir⟩ := h.exists_dir hp
  rintro place ⟨more, hmore⟩ node hnode
  rw [← hmore] at hdir
  by_cases hnil : more = []
  · rw [hnil, List.append_nil, hnode] at hdir
    cases hdir
    rfl
  · obtain ⟨above, habove, hisDir⟩ := h.tree.dir_above place hnil (hdir ▸ Option.isSome_some)
    rw [hnode] at habove
    cases habove
    exact hisDir

/-- Where neither a directory nor a file is, there is nothing. -/
theorem eq_none (h : fs.Shows v) (hdir : fs.isDir p = false) (hfile : fs.isFile p = false) :
    v p.parts = none := by
  rw [h.table.isDir_eq] at hdir
  rw [h.table.isFile_eq] at hfile
  cases hv : v p.parts with
  | none => rfl
  | some node =>
    rw [hv] at hdir hfile
    cases node with
    | file => cases hfile
    | dir => cases hdir

/-- An empty file that is opened is still empty. -/
theorem openFile_empty (h : fs.Shows v) {times : Times}
    (hfile : v p.parts = some (.file .empty times)) (mode : OpenMode) :
    ∃ number, (fs.openFile mode p).1 = .ok number ∧
      (fs.openFile mode p).2.bytesAt p = some .empty := by
  have hbytes : fs.bytesAt p = some .empty := by
    refine bytesAt_eq_some_iff.2 ⟨times, ?_⟩
    exact (h.table.found _ _).2 ⟨p, rfl, hfile⟩
  rw [FileSystem.openFile, (h.table.file_eq_ok_iff p _ times).2 hfile]
  cases hmode : mode.truncate with
  | false => exact ⟨_, rfl, hbytes⟩
  | true =>
    refine ⟨_, rfl, (bytesAt_setFile fs p .empty _).trans ?_⟩
    exact if_pos rfl

/-- The working directory is found under a dot. -/
theorem find?_dot (h : fs.Shows v) (hcwd : fs.isDir fs.cwd = true) :
    ∃ p names times, fs.resolve "." = .ok p ∧ p.parts = fs.cwd.parts ∧
      fs.find? p = some (.dir names times) ∧
      fs.nodes.get? p.dirKey = some (.dir names times) := by
  obtain ⟨p, hp, hparts, htrailing⟩ := fs.cwd.resolve_dot
  obtain ⟨names, times, hdir⟩ := h.exists_dir hcwd
  refine ⟨p, names, times, resolve_eq_ok hp, hparts, ?_, ?_⟩
  · rw [h.table.find?_eq, htrailing, if_pos rfl, hparts, hdir]
    rfl
  · rw [h.table.get?_dirKey, hparts, hdir]
    rfl

theorem writeFile_name (h : fs.Shows v) (hcwd : fs.isDir fs.cwd = true) {name : String}
    (hname : Path.isComponent name = true) (hp : p.parts = fs.cwd.parts ++ [name])
    (hdir : fs.isDir p = false) (data : ByteArray) :
    (fs.writeFile name data).1 = .ok () ∧ (fs.writeFile name data).2.bytesAt p = some data := by
  obtain ⟨q, hq, hparts, -⟩ := fs.cwd.resolve_name hname
  have hfree : fs.isDir q = false := by
    rwa [h.table.isDir_eq, hparts, ← hp, ← h.table.isDir_eq]
  have hwritten : fs.writeFile name data = fs.placeFile q data := by
    rw [writeFile, resolve_eq_ok hq]
    exact if_neg (by rw [hfree]; exact Bool.false_ne_true)
  have hok : (fs.placeFile q data).1 = .ok () := by
    refine h.placeFile_ok (by simp [hparts]) ?_ data
    rw [hparts, List.dropLast_concat]
    exact h.passable_of_isDir hcwd
  rw [hwritten]
  refine ⟨hok, ?_⟩
  rw [h.table.isDir_eq, Option.any_eq_false] at hfree
  rcases h.placeFile (p := q) (fun node hnode => Bool.not_eq_true _ ▸ hfree node hnode) data with
    ⟨-, nodes', hplaced, hshows⟩ | ⟨e, hrefused⟩
  · rw [hplaced]
    have hget := (hshows.table.found _ _).2 ⟨q, rfl, if_pos rfl⟩
    rw [bytesAt_eq_of_parts _ (hp.trans hparts.symm)]
    exact bytesAt_eq_some_iff.2 ⟨_, hget⟩
  · rw [hrefused] at hok
    cases hok

theorem openPath_name (h : fs.Shows v) (hcwd : fs.isDir fs.cwd = true) {name : String}
    (hname : Path.isComponent name = true) (hp : p.parts = fs.cwd.parts ++ [name])
    (hnone : v p.parts = none) {mount : Option (Asset.Mount World)}
    (hcovers : ∀ m ∈ mount, m.covers p = false) (world : World) {mode : OpenMode}
    (hmode : mode.create = true) :
    ∃ number, (fs.openPath mount world name mode).1 = .ok number ∧
      (fs.openPath mount world name mode).2.1.bytesAt p = some .empty := by
  obtain ⟨q, hq, hparts, htrailing⟩ := fs.cwd.resolve_name hname
  have hsame : q.parts = p.parts := hparts.trans hp.symm
  have hfree : v q.parts = none := hsame ▸ hnone
  have hmissing : fs.find? q = none := by
    rw [h.table.find?_eq, htrailing, if_neg Bool.false_ne_true, hfree]
  have hpopulate := populate_of_uncovered
    (fun m hm => Or.inr ((covers_congr m hsame).trans (hcovers m hm))) fs world
  obtain ⟨names, times, hd⟩ := h.exists_dir hcwd
  have hcreated : fs.createFor q mode = .ok (fs.putFile q .empty) := by
    rw [FileSystem.createFor, hmode, hmissing, htrailing, requireParent_eq_ok hparts hcwd]
    rfl
  obtain ⟨nodes', hput, hshows⟩ := h.putFile hparts hd rfl
    (fun _ hold => absurd (hfree.symm.trans hold) (by simp)) .empty
  have hthere : ((v.set q.parts (some (.file .empty (.stamp fs.clock)))).modify fs.cwd.parts
      (·.addName fs.clock name)) q.parts = some (.file .empty (.stamp fs.clock)) := by
    unfold View.modify View.set
    rw [if_neg (by simp [hparts]), if_pos rfl]
  obtain ⟨number, hopened, hbytes⟩ := hshows.openFile_empty hthere mode
  have hopen : openLocal mode fs q = (fs.withNodes nodes').openFile mode q := by
    rw [openLocal, hcreated, hput]
    dsimp only
    rw [hshows.table.find?_eq, htrailing, if_neg Bool.false_ne_true, hthere]
  have hgo : fs.openPath mount world name mode =
      ((openLocal mode fs q).1, (openLocal mode fs q).2, world) :=
    withFetched_eq (resolve_eq_ok hq) hpopulate (openLocal mode)
  rw [hgo, hopen, bytesAt_eq_of_parts _ hsame.symm]
  exact ⟨number, hopened, hbytes⟩

theorem makeDir_name (h : fs.Shows v) (hcwd : fs.isDir fs.cwd = true) {name : String}
    (hname : Path.isComponent name = true) (hp : p.parts = fs.cwd.parts ++ [name])
    (hnone : v p.parts = none) :
    (fs.makeDir name false).1 = .ok () ∧ (fs.makeDir name false).2.isDir p = true := by
  obtain ⟨q, hq, hparts, -⟩ := fs.cwd.resolve_name hname
  have hmade : fs.makeDirHere q = .ok (fs.putDir q) := by
    refine makeDirHere_eq_ok_iff.2 ⟨?_, requireParent_eq_ok hparts hcwd, rfl⟩
    rw [h.table.keyOf?_eq, hparts, ← hp, hnone]
    rfl
  rw [FileSystem.makeDir, resolve_eq_ok hq]
  dsimp only
  rw [if_neg Bool.false_ne_true, hmade]
  refine ⟨rfl, ?_⟩
  show (fs.putDir q).isDir p = true
  rw [FileSystem.putDir, isDir_link, isDir, put, Dictionary.get?_put,
    if_pos (Path.dirKey_inj.2 (hparts.trans hp.symm))]
  rfl

/-- A working directory that is there can be worked in. -/
theorem workable (h : fs.Shows v) (hcwd : fs.isDir fs.cwd = true) : Workable fs where
  here := by
    obtain ⟨p, -, -, hp, hparts, -⟩ := h.find?_dot hcwd
    refine ⟨p, hp, hparts, ?_⟩
    rwa [h.table.isDir_eq, hparts, ← h.table.isDir_eq]
  shown mount world := by
    obtain ⟨p, names, times, hp, -, hfound, -⟩ := h.find?_dot hcwd
    have hpopulate := populate_of_isSome (hfound ▸ Option.isSome_some) mount world
    refine ⟨statOf (.dir names times), ?_, rfl⟩
    rw [stat, withFetched_eq hp hpopulate, statLocal, hfound]
  listed := by
    obtain ⟨p, names, times, hp, -, -, hget⟩ := h.find?_dot hcwd
    refine ⟨names, ?_⟩
    simp only [readDir, hp, hget, bind, Except.bind, pure, Except.pure]
  written name p data hname hp hdir := h.writeFile_name hcwd hname hp hdir data
  created name p mode World mount world hname hp hdir hfile hcovers hmode :=
    h.openPath_name hcwd hname hp (h.eq_none hdir hfile) hcovers world hmode
  made name p hname hp hdir hfile := h.makeDir_name hcwd hname hp (h.eq_none hdir hfile)

end Shows

/-! ## Every run -/

/-- File systems that come of a new one, or of a reachable one whose working directory was just
    chosen, without that the working directory is taken away. -/
inductive Resident : FileSystem → Prop where
  | new (clock : Time) : Resident (.empty clock)
  | chosen {fs fs' : FileSystem} {text : String} (reachable : Reachable fs)
      (granted : fs.chdir text = .ok fs') : Resident fs'
  | tick {fs : FileSystem} (clock : Time) : Resident fs → Resident { fs with clock := clock }
  | step {fs : FileSystem} {World : Type} (mount : Option (Asset.Mount World)) (world : World)
      (op : Operation) (resident : Resident fs)
      (stays : ¬ (op.Unseats fs ∧ ∃ reply, (fs.perform mount world op).1 = .ok reply)) :
      Resident (fs.perform mount world op).2.1

theorem Resident.reachable (h : Resident fs) : Reachable fs := by
  induction h with
  | new clock => exact .new clock
  | @chosen fs fs' text hfs hok =>
    have hstep := hfs.step none () (.chdir text)
    rw [perform, hok] at hstep
    exact hstep
  | tick clock _ ih => exact ih.tick clock
  | step mount world op _ _ ih => exact ih.step mount world op

theorem Resident.isDir_cwd (h : Resident fs) : fs.isDir fs.cwd = true := by
  induction h with
  | new clock => rfl
  | chosen _ hok => exact Shows.isDir_cwd_of_chdir hok
  | tick clock _ ih => exact ih
  | step mount world op hresident hstays ih =>
    obtain ⟨v, hv⟩ := hresident.reachable.shows
    exact (hv.isDir_cwd_perform_iff ih mount world op).2 hstays

/-- The working directory is there, and can be worked in, until an operation is granted that is to
    take it away; after such an operation it is not there. -/
theorem Resident.cwd_there (h : Resident fs) :
    Reachable fs ∧ fs.isDir fs.cwd = true ∧ Workable fs ∧
      ∀ {World : Type} (mount : Option (Asset.Mount World)) (world : World) (op : Operation),
        (fs.perform mount world op).2.1.isDir (fs.perform mount world op).2.1.cwd = true ↔
          ¬ (op.Unseats fs ∧ ∃ reply, (fs.perform mount world op).1 = .ok reply) := by
  obtain ⟨v, hv⟩ := h.reachable.shows
  exact ⟨h.reachable, h.isDir_cwd, hv.workable h.isDir_cwd, fun mount world op =>
    hv.isDir_cwd_perform_iff h.isDir_cwd mount world op⟩

/-- A directory with one inside it, and one beside it whose name begins with its own. -/
def siblingDirs : FileSystem :=
  (performAll none (empty ⟨0, 0⟩) () [.makeDir "/a/d" true, .makeDir "/ab" true]).2.1

/-- The same, once the first directory was chosen and the one beside it moved into it. -/
def settledIn : FileSystem :=
  ((siblingDirs.perform none () (.chdir "/a")).2.1.perform none () (.rename "/ab" "d/e")).2.1

/-- What is moved into the working directory does not move it, and moving it into itself is refused.
    Moving it to the root takes it away. -/
theorem cwd_there_settledIn :
    settledIn.isDir settledIn.cwd = true ∧ Workable settledIn ∧
    (settledIn.perform none () (.rename "/a" "/a/d/a")).2.1.isDir
      (settledIn.perform none () (.rename "/a" "/a/d/a")).2.1.cwd = true ∧
    (settledIn.perform none () (.rename "/a" "/b")).2.1.isDir
      (settledIn.perform none () (.rename "/a" "/b")).2.1.cwd = false := by
  have hchosen : Resident (siblingDirs.perform none () (.chdir "/a")).2.1 := by
    have hgranted : (siblingDirs.chdir "/a").isOk = true := by decide +kernel
    rw [perform]
    cases hok : siblingDirs.chdir "/a" with
    | error e =>
      rw [hok] at hgranted
      cases hgranted
    | ok fs => exact .chosen (.performAll none _ () (.new ⟨0, 0⟩)) hok
  have hresident : Resident settledIn := by
    refine .step none () (.rename "/ab" "d/e") hchosen ?_
    rintro ⟨⟨s, t, hs, -, -, hpre⟩, -⟩
    have hab : (siblingDirs.perform none () (.chdir "/a")).2.1.resolve "/ab" =
        .ok ⟨["ab"], false, by decide, by decide⟩ := by decide +kernel
    cases hab.symm.trans hs
    exact absurd hpre (by decide +kernel)
  obtain ⟨-, hcwd, hworkable, hlaw⟩ := Resident.cwd_there hresident
  refine ⟨hcwd, hworkable, (hlaw none () (.rename "/a" "/a/d/a")).2 ?_, ?_⟩
  · rintro ⟨-, reply, hok⟩
    have hrefused : (settledIn.perform none () (.rename "/a" "/a/d/a")).1.isOk = false := by
      decide +kernel
    rw [hok] at hrefused
    cases hrefused
  · decide +kernel

/-- A working directory that is moved, or removed, is not there any more, and nothing can be looked
    up or created from it. -/
theorem exists_cwd_not_isDir : (¬ ∀ fs, Reachable fs → fs.isDir fs.cwd = true) ∧
    ∀ op ∈ [Operation.rename "/a" "/b", .removeDir "."],
      let fs := (performAll none (empty ⟨0, 0⟩) () [.makeDir "/a" false, .chdir "/a", op]).2.1
      fs.isDir fs.cwd = false ∧ fs.readDir "." = .error (.notFound "/a") ∧
        (fs.openPath none () "f" (.ofBits 0o101)).1 = .error (.notFound "/a") := by
  have hlost : ∀ op ∈ [Operation.rename "/a" "/b", .removeDir "."],
      let fs := (performAll none (empty ⟨0, 0⟩) () [.makeDir "/a" false, .chdir "/a", op]).2.1
      fs.isDir fs.cwd = false ∧ fs.readDir "." = .error (.notFound "/a") ∧
        (fs.openPath none () "f" (.ofBits 0o101)).1 = .error (.notFound "/a") := by
    decide +kernel
  refine ⟨fun h => ?_, hlost⟩
  have hthere := h _ (.performAll none [.makeDir "/a" false, .chdir "/a", .rename "/a" "/b"] ()
    (.new ⟨0, 0⟩))
  rw [(hlost _ List.mem_cons_self).1] at hthere
  cases hthere

end FileSystem

end Workbench
