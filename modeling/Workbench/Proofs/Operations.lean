import Workbench.Proofs.Effects
import Workbench.Proofs.Moving

set_option autoImplicit false

/-! # What operations owe

Every operation leaves nodes that form a tree, and one that is refused leaves everything that can be
seen from outside as it was: the nodes, the working directory and the two buffers. Both are proved
of each operation at once, from what the file system shows when it begins. An operation that fetches
begins on what was fetched. -/

namespace Workbench.FileSystem

variable {World α : Type} {v : View} {fs fs' : FileSystem}

/-- Nothing that can be seen from outside has changed. -/
structure Unchanged (fs fs' : FileSystem) : Prop where
  nodes : fs'.nodes = fs.nodes
  cwd : fs'.cwd = fs.cwd
  stdout : fs'.stdout = fs.stdout
  stderr : fs'.stderr = fs.stderr

theorem Unchanged.refl (fs : FileSystem) : Unchanged fs fs := ⟨rfl, rfl, rfl, rfl⟩

/-- What an operation owes that begins on a file system. -/
structure Sound (fs : FileSystem) (outcome : Except Error α × FileSystem) : Prop where
  tree : ∃ v, outcome.2.Shows v
  refused : ∀ e, outcome.1 = .error e → Unchanged fs outcome.2

namespace Shows

/-- What is shown depends on the nodes alone. -/
theorem of_nodes (h : fs.Shows v) (hnodes : fs'.nodes = fs.nodes) : fs'.Shows v :=
  ⟨hnodes ▸ h.table, h.tree⟩

/-- Answering without a change is sound. -/
theorem sound_self (h : fs.Shows v) (result : Except Error α) : Sound fs (result, fs) :=
  ⟨⟨v, h⟩, fun _ _ => Unchanged.refl fs⟩

/-- Granting a request is sound if a tree is left. -/
theorem sound_ok {v' : View} (h : fs'.Shows v') (value : α) : Sound fs (.ok value, fs') :=
  ⟨⟨v', h⟩, fun _ he => absurd he (by simp)⟩

/-- A request that is refused without a change is sound if it is when granted. -/
theorem sound_settle (h : fs.Shows v) (world : World) {result : Except Error FileSystem}
    (hok : ∀ fs', result = .ok fs' → ∃ v', fs'.Shows v') :
    Sound fs ((settle fs world result).1, (settle fs world result).2.1) := by
  cases result with
  | error e => exact h.sound_self _
  | ok fs' =>
    obtain ⟨v', hv'⟩ := hok fs' rfl
    exact sound_ok hv' _

/-! ## Files -/

/-- The bytes and times of a file may be changed. -/
theorem setFile (h : fs.Shows v) {p : Path} {data : ByteArray} {times : Times}
    (hfile : v p.parts = some (.file data times)) (data' : ByteArray) (times' : Times) :
    (fs.setFile p data' times').Shows (v.set p.parts (some (.file data' times'))) := by
  refine ⟨h.table.put p (.file data' times') (fun old hold => ?_) fun _ =>
    h.table.parts_ne_nil hfile rfl, h.tree.set_of_names_eq hfile rfl⟩
  rw [hfile, Option.some.injEq] at hold
  rw [← hold]
  rfl

theorem read (h : fs.Shows v) (number length : Nat) (position : Option Nat) :
    Sound fs (fs.read number length position) := by
  have houtcome := read_outcome fs number length position
  have hmoved : ∀ cursor, (fs.setCursor number cursor).Shows v := fun _ => h.of_nodes rfl
  generalize fs.read number length position = outcome at houtcome ⊢
  cases houtcome with
  | stream => exact h.sound_self _
  | refused => exact h.sound_self _
  | missing => exact ⟨⟨v, hmoved _⟩, fun _ _ => ⟨rfl, rfl, rfl, rfl⟩⟩
  | found d data times start bytes _ hfile =>
    rw [h.table.file_eq_ok_iff] at hfile
    exact ⟨⟨_, ((hmoved _).setFile hfile data _).of_nodes rfl⟩, fun _ he => absurd he (by simp)⟩

theorem write (h : fs.Shows v) {number n : Nat} {bytes : ByteArray} {position : Option Nat}
    (hok : fs.write number bytes position = .ok (n, fs')) : ∃ v', fs'.Shows v' := by
  cases (written_of_write hok).2 with
  | stdout => exact ⟨v, h.of_nodes rfl⟩
  | stderr => exact ⟨v, h.of_nodes rfl⟩
  | file d data times offset _ _ _ hfile =>
    rw [h.table.file_eq_ok_iff] at hfile
    exact ⟨_, (h.setFile hfile _ _).of_nodes rfl⟩

theorem close (h : fs.Shows v) {number : Nat} (hok : fs.close number = .ok fs') :
    ∃ v', fs'.Shows v' := by
  rcases close_eq_ok_iff.1 hok with ⟨-, rfl⟩ | ⟨-, -, rfl⟩
  · exact ⟨v, h⟩
  · exact ⟨v, h.of_nodes rfl⟩

theorem truncateDescriptor (h : fs.Shows v) {number length : Nat}
    (hok : fs.truncateDescriptor number length = .ok fs') : ∃ v', fs'.Shows v' := by
  obtain ⟨d, data, times, -, -, -, hfile, rfl⟩ := truncateDescriptor_eq_ok_iff.1 hok
  rw [h.table.file_eq_ok_iff] at hfile
  exact ⟨_, h.setFile hfile _ _⟩

theorem truncate (h : fs.Shows v) {text : String} {length : Nat}
    (hok : fs.truncate text length = .ok fs') : ∃ v', fs'.Shows v' := by
  obtain ⟨p, data, times, -, -, hfile, rfl⟩ := truncate_eq_ok_iff.1 hok
  rw [h.table.file_eq_ok_iff] at hfile
  exact ⟨_, h.setFile hfile _ _⟩

theorem setTimes (h : fs.Shows v) {text : String} {accessed modified : Time}
    (hok : fs.setTimes text accessed modified = .ok fs') : ∃ v', fs'.Shows v' := by
  obtain ⟨p, key, -, hkey, rfl⟩ := setTimes_eq_ok_iff.1 hok
  rw [h.table.keyOf?_eq, Option.map_eq_some_iff] at hkey
  obtain ⟨node, hv, rfl⟩ := hkey
  exact ⟨_, h.table.update hv (Node.isDir_withTimes _ node),
    h.tree.set_of_names_eq hv (Node.names_withTimes _ node)⟩

/-! ## Removing -/

/-- A file that was unlinked is gone, and nothing has come to where nothing was. -/
theorem unlink (h : fs.Shows v) {text : String} (hok : fs.unlink text = .ok fs') :
    ∃ p v', fs.resolve text = .ok p ∧ fs'.Shows v' ∧ v' p.parts = none ∧
      ∀ place, v place = none → v' place = none := by
  obtain ⟨p, hresolve, hfile, rfl⟩ := unlink_eq_ok_iff.1 hok
  rw [h.table.isFile_eq, Option.any_eq_true] at hfile
  obtain ⟨node, hv, hfile⟩ := hfile
  have hdir : node.isDir = false := by
    cases node with
    | file data times => rfl
    | dir names times => cases hfile
  have hp := h.table.parts_ne_nil hv hdir
  obtain ⟨d, name, hparts⟩ := exists_concat hp
  have hremoved : Represents (fs.remove p.fileKey).nodes (v.set p.parts none) := by
    have hremoved := h.table.remove hp hv
    rwa [hdir, Path.key_false] at hremoved
  have hstruck := hremoved.unlinkName hparts
  have hplace : v.names (d ++ [name]) = [] := by
    rw [← hparts, View.names_of_eq_some hv, Node.names_eq_nil_of_isDir_eq_false hdir]
  have hgone : ∀ place, place = p.parts ∨ v place = none →
      ((v.set p.parts none).modify d (·.dropName fs.clock name)) place = none := by
    intro place hplace
    have hset : v.set p.parts none place = none := by
      unfold View.set
      split
      · rfl
      · next hne => exact hplace.resolve_left hne
    unfold View.modify
    split
    · rw [hset, Option.map_none]
    · exact hset
  have htree := h.tree.set_dropName fs.clock hplace
  rw [← hparts] at htree
  exact ⟨p, _, hresolve, ⟨hstruck, htree⟩, hgone _ (Or.inl rfl), fun place hnone =>
    hgone place (Or.inr hnone)⟩

/-- Nothing is at a path where no file to unlink is found. -/
theorem unlink_notFound (h : fs.Shows v) {text missing : String}
    (hmissing : fs.unlink text = .error (.notFound missing)) :
    ∃ p, fs.resolve text = .ok p ∧ v p.parts = none := by
  simp only [FileSystem.unlink, bind, Except.bind, pure, Except.pure, throw, throwThe,
    MonadExceptOf.throw] at hmissing
  split at hmissing
  · next e hresolve =>
    -- a text that is no path is not missing, but invalid
    rw [resolve, Except.error.inj hmissing] at hresolve
    cases hcwd : fs.cwd.resolve text with
    | error e =>
      rw [hcwd] at hresolve
      exact absurd (Except.error.inj hresolve) (by simp [Error.ofPath])
    | ok q =>
      rw [hcwd] at hresolve
      cases hresolve
  next p hresolve =>
  split at hmissing
  · next hfile =>
    split at hmissing
    · cases hmissing
    · next hdir =>
      refine ⟨p, hresolve, ?_⟩
      rw [h.table.isFile_eq, Bool.not_eq_true'] at hfile
      rw [h.table.isDir_eq] at hdir
      cases hv : v p.parts with
      | none => rfl
      | some node => cases node <;> simp_all [Node.isFile, Node.isDir]
  · cases hmissing

theorem removeDir (h : fs.Shows v) {text : String} (hok : fs.removeDir text = .ok fs') :
    ∃ v', fs'.Shows v' := by
  obtain ⟨p, node, -, hroot, hget, hempty, rfl⟩ := removeDir_eq_ok_iff.1 hok
  have hp : p.parts ≠ [] := mt (Path.isRoot_iff p).2 (Bool.not_eq_true _ ▸ hroot)
  rw [h.table.get?_dirKey] at hget
  obtain ⟨hv, hdir⟩ := Option.filter_eq_some_iff.1 hget
  obtain ⟨d, name, hparts⟩ := exists_concat hp
  have hremoved : Represents (fs.remove p.dirKey).nodes (v.set p.parts none) := by
    have hremoved := h.table.remove hp hv
    rwa [hdir, Path.key_true] at hremoved
  have hstruck := hremoved.unlinkName hparts
  have hplace : v.names (d ++ [name]) = [] := by
    rw [← hparts, View.names_of_eq_some hv, hempty]
  rw [hparts] at hstruck
  exact ⟨_, hstruck, h.tree.set_dropName fs.clock hplace⟩

/-! ## Making and moving -/

theorem makeDirHere (h : fs.Shows v) {p : Path} (hok : fs.makeDirHere p = .ok fs') :
    ∃ v', fs'.Shows v' := by
  obtain ⟨hfree, hparent, rfl⟩ := makeDirHere_eq_ok_iff.1 hok
  rw [h.table.keyOf?_eq, Option.map_eq_none_iff] at hfree
  have hp : p.parts ≠ [] := by
    intro hp
    obtain ⟨root, hroot, -⟩ := h.table.root
    rw [hp, hroot] at hfree
    cases hfree
  obtain ⟨dir, hdir, hisDir⟩ := h.table.requireParent hp hparent
  obtain ⟨d, name, hparts⟩ := exists_concat hp
  rw [hparts, List.dropLast_concat] at hdir
  obtain ⟨nodes', hput, hshows⟩ := h.putDir hparts hdir hisDir hfree
  exact ⟨_, hput ▸ hshows⟩

theorem sound_makeDir (h : fs.Shows v) (text : String) (recursive : Bool) :
    Sound fs (fs.makeDir text recursive) := by
  unfold FileSystem.makeDir
  split
  · exact h.sound_self _
  next p _ =>
  split
  · rcases h.makeDirs p with ⟨-, nodes', hmade, hshows⟩ | ⟨e, hrefused⟩
    · rw [hmade]
      exact sound_ok hshows ()
    · rw [hrefused]
      exact h.sound_self _
  · split
    · exact h.sound_self _
    · next fs' hmade =>
      obtain ⟨v', hv'⟩ := h.makeDirHere hmade
      exact sound_ok hv' ()

theorem sound_rename (h : fs.Shows v) (sourceText targetText : String) :
    Sound fs (fs.rename sourceText targetText) := by
  unfold FileSystem.rename
  split
  · exact h.sound_self _
  next move hplan =>
  rcases h.planMove hplan with rfl | ⟨source, target, node, hmovable, rfl⟩
  · exact h.sound_self _
  · obtain ⟨fs', hdone, v', hv'⟩ := h.carryOut hmovable
    rw [hdone]
    exact sound_ok hv' ()

theorem sound_writeFile (h : fs.Shows v) (text : String) (data : ByteArray) :
    Sound fs (fs.writeFile text data) := by
  unfold FileSystem.writeFile
  split
  · exact h.sound_self _
  next p _ =>
  split
  · exact h.sound_self _
  next hdir =>
  rw [h.table.isDir_eq, Option.any_eq_true, not_exists] at hdir
  have hold : ∀ node, v p.parts = some node → node.isDir = false := fun node hv =>
    Bool.not_eq_true _ ▸ fun hisDir => hdir node ⟨hv, hisDir⟩
  rcases h.placeFile hold data with ⟨-, nodes', hplaced, hshows⟩ | ⟨e, hrefused⟩
  · rw [hplaced]
    exact sound_ok hshows ()
  · rw [hrefused]
    exact h.sound_self _

theorem chdir (h : fs.Shows v) {text : String} (hok : fs.chdir text = .ok fs') :
    ∃ v', fs'.Shows v' := by
  obtain ⟨p, -, -, rfl⟩ := chdir_eq_ok_iff.1 hok
  exact ⟨v, h.of_nodes rfl⟩

/-! ## Opening, looking and reading -/

/-- A file that is created to be opened is there. -/
theorem createFor (h : fs.Shows v) {p : Path} {mode : OpenMode}
    (hok : fs.createFor p mode = .ok fs') :
    fs' = fs ∨ p.trailing = false ∧ ∃ v' data times, fs'.Shows v' ∧
      v' p.parts = some (.file data times) := by
  rcases createFor_eq_ok hok with rfl | ⟨-, hfree, htrailing, hparent, rfl⟩
  · exact Or.inl rfl
  rw [h.table.find?_eq, htrailing, if_neg Bool.false_ne_true] at hfree
  have hp : p.parts ≠ [] := fun hp => Bool.false_ne_true (htrailing.symm.trans (p.rootTrails hp))
  obtain ⟨dir, hdir, hisDir⟩ := h.table.requireParent hp hparent
  obtain ⟨d, name, hparts⟩ := exists_concat hp
  rw [hparts, List.dropLast_concat] at hdir
  obtain ⟨nodes', hput, hshows⟩ := h.putFile hparts hdir hisDir
    (fun _ hold => absurd (hfree.symm.trans hold) (by simp)) .empty
  refine Or.inr ⟨htrailing, _, .empty, .stamp fs.clock, hput ▸ hshows, ?_⟩
  have hne : p.parts ≠ d := by simp [hparts]
  unfold View.modify View.set
  rw [if_neg hne, if_pos rfl]

theorem addDescriptor (h : fs.Shows v) (d : Descriptor) : Sound fs (fs.addDescriptor d) :=
  ⟨⟨v, h.of_nodes rfl⟩, by simp [FileSystem.addDescriptor]⟩

/-- A file that is there can be opened. -/
theorem openFile (h : fs.Shows v) {p : Path} {data : ByteArray} {times : Times}
    (hfile : v p.parts = some (.file data times)) (mode : OpenMode) :
    ∃ n fs', fs.openFile mode p = (.ok n, fs') ∧ ∃ v', fs'.Shows v' := by
  rw [FileSystem.openFile, (h.table.file_eq_ok_iff p data times).2 hfile]
  dsimp only
  split
  · exact ⟨_, _, rfl, _, (h.setFile hfile _ _).of_nodes rfl⟩
  · exact ⟨_, _, rfl, _, h.of_nodes rfl⟩

theorem sound_openLocal (h : fs.Shows v) (mode : OpenMode) (p : Path) :
    Sound fs (openLocal mode fs p) := by
  unfold openLocal
  split
  · exact h.sound_self _
  next fs' hcreated =>
  rcases h.createFor hcreated with rfl | ⟨htrailing, v', data, times, hv', hfile⟩
  · split
    · exact h.sound_self _
    · split
      · exact h.sound_self _
      · exact h.addDescriptor _
    · next data times hfound =>
      obtain ⟨n, fs'', hopened, v'', hv''⟩ := h.openFile (h.table.eq_of_find? hfound) mode
      rw [hopened]
      exact sound_ok hv'' n
  · obtain ⟨n, fs'', hopened, v'', hv''⟩ := hv'.openFile hfile mode
    rw [hv'.table.find?_eq, htrailing, if_neg Bool.false_ne_true, hfile]
    dsimp only
    rw [hopened]
    exact sound_ok hv'' n

theorem sound_statLocal (h : fs.Shows v) (p : Path) : Sound fs (fs.statLocal p) := by
  unfold statLocal
  split <;> exact h.sound_self _

theorem sound_readLocal (h : fs.Shows v) (p : Path) : Sound fs (fs.readLocal p) := by
  unfold readLocal
  split
  · exact h.sound_self _
  · next data times hfile =>
    rw [h.table.file_eq_ok_iff] at hfile
    exact sound_ok (h.setFile hfile _ _) _

end Shows

end Workbench.FileSystem
