import Workbench.Proofs.MissingDirectories

set_option autoImplicit false

/-! # Errors and the tree

Without a mount, what a request that goes by a path is refused with says what is at the path. A
request that needs something finds nothing exactly where nothing is, one that writes or removes a
file is told of a directory in its place, and one that lists or removes a directory is told of a
file. A length past the largest size of a file is refused before the path is looked at. Reading and
cutting a file look under the key of a file alone, and changing the working directory asks for a
directory alone, so of these three it is said that they are refused, and with what only where
nothing is. -/

namespace Workbench.FileSystem

variable {World α β : Type} {v : View} {fs : FileSystem} {p q : Path} {text : String} {e : Error}

/-- What an error says of the path that it names is so. -/
def Error.Truthful (fs : FileSystem) : Error → Prop
  | .notFound text => ∃ p : Path, p.toString = text ∧ fs.nodeAt p = none
  | .alreadyExists text => ∃ p : Path, p.toString = text ∧ (fs.nodeAt p).isSome
  | .isDirectory text => ∃ p : Path, p.toString = text ∧ fs.isDir p = true
  | .notDirectory text => ∃ p : Path, p.toString = text ∧ fs.isFile p = true
  | .notEmpty text => ∃ (p : Path) (names : List String) (times : Times), p.toString = text ∧
      fs.nodeAt p = some (.dir names times) ∧ names ≠ []
  | _ => True

namespace Operation

/-- An operation is to write or to remove the file at a path, or to open it for writing or emptying
    and not only if it is new. -/
def WantsFile (fs : FileSystem) (p : Path) : Operation → Prop
  | .unlink path | .writeFile path _ => fs.Names path p
  | .openPath path mode => fs.Names path p ∧ (mode.create && mode.exclusive) = false ∧
      (mode.writable || mode.truncate) = true
  | _ => False

/-- An operation is to list or to remove the directory at a path. -/
def WantsDirectory (fs : FileSystem) (p : Path) : Operation → Prop
  | .readDir path | .removeDir path => fs.Names path p
  | _ => False

/-- An operation needs something at a path. -/
def WantsNode (fs : FileSystem) (p : Path) : Operation → Prop
  | .stat path | .readAll path | .unlink path | .removeDir path | .readDir path | .chdir path
  | .setTimes path _ _ => fs.Names path p
  | .openPath path mode => fs.Names path p ∧ mode.create = false
  | .truncate path length => fs.Names path p ∧ length ≤ maxFileSize
  | .rename source target => fs.Names source p ∧
      ∃ t, fs.resolve target = .ok t ∧ t.isRoot = false ∧ t.parts ≠ p.parts
  | _ => False

/-- An operation is to read or to cut a file where a directory is, or to enter a directory where a
    file is. -/
def Mistakes (fs : FileSystem) (p : Path) : Operation → Prop
  | .readAll path | .truncate path _ => fs.Names path p ∧ fs.isDir p = true
  | .chdir path => fs.Names path p ∧ fs.isFile p = true
  | _ => False

/-- An operation goes by paths, and looks both for files and for directories. -/
def Looks : Operation → Prop
  | .close _ | .read .. | .write .. | .statDescriptor _ | .truncateDescriptor .. => False
  | .readAll _ | .truncate .. | .chdir _ => False
  | _ => True

end Operation

/-! ## Looking -/

/-- Nothing is found at a path, however it is looked for. -/
structure Vacant (fs : FileSystem) (p : Path) : Prop where
  root : p.isRoot = false
  isFile : fs.isFile p = false
  isDir : fs.isDir p = false
  dirKey : fs.nodes.get? p.dirKey = none
  found : fs.find? p = none
  key : fs.keyOf? p = none
  file : fs.file p = .error (.notFound p.toString)

/-- What needs something that is not there is told so. -/
theorem Vacant.missing (h : Vacant fs p) : fs.missing p = .notFound p.toString := by
  rw [FileSystem.missing, h.isFile, Bool.and_false, if_neg Bool.false_ne_true]

namespace Shows

theorem vacant (h : fs.Shows v) (hv : v p.parts = none) : Vacant fs p := by
  have hp : p.parts ≠ [] := by
    intro hp
    obtain ⟨root, hroot, -⟩ := h.table.root
    rw [hp, hroot] at hv
    cases hv
  constructor
  · exact (Path.isRoot_eq_false_iff p).2 hp
  · rw [h.table.isFile_eq, hv, Option.any_none]
  · rw [h.table.isDir_eq, hv, Option.any_none]
  · rw [h.table.get?_dirKey, hv, Option.filter_none]
  · rw [h.table.find?_eq, hv, Option.filter_none, ite_self]
  · rw [h.table.keyOf?_eq, hv, Option.map_none]
  · rw [FileSystem.file, h.table.get?_fileKey hp, hv]
    rfl

/-- No bytes are where a directory is. -/
theorem file_of_dir (h : fs.Shows v) {names : List String} {times : Times}
    (hv : v p.parts = some (.dir names times)) : ∃ e, fs.file p = .error e := by
  cases hfile : fs.file p with
  | error e => exact ⟨e, rfl⟩
  | ok result =>
    have hdata := (h.table.file_eq_ok_iff p result.1 result.2).1 hfile
    rw [hv] at hdata
    cases hdata

end Shows

/-! ## Requests that are refused -/

/-- Without a mount nothing is fetched. -/
theorem withFetched_unmounted (fs : FileSystem) (world : World)
    (act : FileSystem → Path → Except Error α × FileSystem) (hq : fs.resolve text = .ok q) :
    withFetched none fs world text act = ((act fs q).1, (act fs q).2, world) :=
  withFetched_eq hq (populate_of_uncovered (fun _ hm => by cases hm) fs world) act

/-- A directory is not opened for writing or emptying. -/
theorem Shows.openPath_dir (h : fs.Shows v) (world : World) {mode : OpenMode}
    (hq : fs.resolve text = .ok q) (hdir : fs.isDir q = true)
    (hold : (mode.create && mode.exclusive) = false)
    (hchange : (mode.writable || mode.truncate) = true) :
    (fs.openPath none world text mode).1 = .error (.isDirectory q.toString) := by
  obtain ⟨names, times, hv⟩ := h.exists_dir hdir
  have hfind : fs.find? q = some (.dir names times) := by
    rw [h.table.find?_eq, hv]
    split <;> rfl
  have hcreate : fs.createFor q mode = .ok fs := by
    rw [FileSystem.createFor, hfind, Option.isSome_some, if_pos rfl]
    cases hnew : mode.create with
    | false => rfl
    | true =>
      rw [hnew, Bool.true_and] at hold
      rw [hold]
      rfl
  rw [FileSystem.openPath, withFetched_unmounted fs world _ hq, FileSystem.openLocal, hcreate]
  dsimp only
  rw [hfind]
  dsimp only
  rw [if_pos hchange]

/-- A directory is refused to what wants a file. -/
theorem Shows.refused_isDirectory (h : fs.Shows v) (world : World) {op : Operation}
    (hdir : fs.isDir p = true) (hop : op.WantsFile fs p) :
    (fs.perform none world op).1 = .error (.isDirectory p.toString) := by
  have hdir' : ∀ {q : Path}, q.parts = p.parts → fs.isDir q = true := fun hparts => by
    rwa [h.table.isDir_eq, hparts, ← h.table.isDir_eq]
  cases op with
  | unlink path =>
    obtain ⟨q, hq, hparts⟩ := hop
    have hfile : fs.isFile q = false := by
      obtain ⟨names, times, hv⟩ := h.exists_dir (hdir' hparts)
      rw [h.table.isFile_eq, hv]
      rfl
    have hrefused : fs.unlink path = .error (.isDirectory q.toString) := by
      rw [FileSystem.unlink, hq, ok_bind, hfile, hdir' hparts]
      rfl
    rw [FileSystem.perform, hrefused, Path.toString_inj.2 hparts]
    rfl
  | writeFile path data =>
    obtain ⟨q, hq, hparts⟩ := hop
    have hrefused : fs.writeFile path data = (.error (.isDirectory q.toString), fs) := by
      rw [FileSystem.writeFile, hq]
      exact if_pos (hdir' hparts)
    rw [FileSystem.perform, hrefused, Path.toString_inj.2 hparts]
    rfl
  | openPath path mode =>
    obtain ⟨⟨q, hq, hparts⟩, hold, hchange⟩ := hop
    have hrefused := h.openPath_dir world hq (hdir' hparts) hold hchange
    rw [Path.toString_inj.2 hparts] at hrefused
    exact congrArg (Except.map Reply.number) hrefused
  | _ => exact hop.elim

/-- A file is refused to what wants a directory. -/
theorem Shows.refused_notDirectory (h : fs.Shows v) (world : World) {op : Operation}
    (hfile : fs.isFile p = true) (hop : op.WantsDirectory fs p) :
    (fs.perform none world op).1 = .error (.notDirectory p.toString) := by
  have hfile' : ∀ {q : Path}, q.parts = p.parts → fs.isFile q = true := fun hparts => by
    rwa [h.table.isFile_eq, hparts, ← h.table.isFile_eq]
  have hget : ∀ {q : Path}, q.parts = p.parts → fs.nodes.get? q.dirKey = none := fun hparts => by
    obtain ⟨data, times, hv⟩ := h.exists_file (hfile' hparts)
    rw [h.table.get?_dirKey, hv]
    rfl
  cases op with
  | readDir path =>
    obtain ⟨q, hq, hparts⟩ := hop
    have hrefused : fs.readDir path = .error (.notDirectory q.toString) := by
      rw [FileSystem.readDir, hq, ok_bind, hget hparts, hfile' hparts]
      rfl
    rw [FileSystem.perform, hrefused, Path.toString_inj.2 hparts]
    rfl
  | removeDir path =>
    obtain ⟨q, hq, hparts⟩ := hop
    have hroot : q.isRoot = false := by
      obtain ⟨data, times, hv⟩ := h.exists_file (hfile' hparts)
      exact (Path.isRoot_eq_false_iff q).2 (h.table.parts_ne_nil hv rfl)
    have hrefused : fs.removeDir path = .error (.notDirectory q.toString) := by
      rw [FileSystem.removeDir, hq, ok_bind, hroot, hget hparts, hfile' hparts]
      rfl
    rw [FileSystem.perform, hrefused, Path.toString_inj.2 hparts]
    rfl
  | _ => exact hop.elim

/-- What needs something finds nothing where nothing is. -/
theorem Shows.refused_notFound (h : fs.Shows v) (world : World) {op : Operation}
    (hnone : fs.nodeAt p = none) (hop : op.WantsNode fs p) :
    (fs.perform none world op).1 = .error (.notFound p.toString) := by
  rw [h.table.nodeAt_eq] at hnone
  have hvacant : ∀ {q : Path}, q.parts = p.parts → Vacant fs q := fun hparts =>
    h.vacant (hparts ▸ hnone)
  cases op with
  | stat path =>
    obtain ⟨q, hq, hparts⟩ := hop
    rw [← Path.toString_inj.2 hparts, FileSystem.perform, FileSystem.stat,
      withFetched_unmounted fs world _ hq, statLocal, (hvacant hparts).found]
    exact congrArg Except.error (hvacant hparts).missing
  | openPath path mode =>
    obtain ⟨⟨q, hq, hparts⟩, hold⟩ := hop
    have hcreate : fs.createFor q mode = .ok fs := by
      rw [FileSystem.createFor, hold]
      rfl
    rw [← Path.toString_inj.2 hparts, FileSystem.perform, FileSystem.openPath,
      withFetched_unmounted fs world _ hq, FileSystem.openLocal, hcreate]
    dsimp only
    rw [(hvacant hparts).found]
    exact congrArg Except.error (hvacant hparts).missing
  | readAll path =>
    obtain ⟨q, hq, hparts⟩ := hop
    rw [← Path.toString_inj.2 hparts, FileSystem.perform, FileSystem.readAll,
      withFetched_unmounted fs world _ hq, readLocal, (hvacant hparts).file]
    rfl
  | truncate path length =>
    obtain ⟨⟨q, hq, hparts⟩, hlength⟩ := hop
    have hbounded : boundedEnd length 0 = .ok length := if_pos hlength
    rw [← Path.toString_inj.2 hparts, FileSystem.perform, FileSystem.truncate, hbounded, ok_bind,
      hq, ok_bind, (hvacant hparts).file]
    rfl
  | unlink path =>
    obtain ⟨q, hq, hparts⟩ := hop
    rw [← Path.toString_inj.2 hparts, FileSystem.perform, FileSystem.unlink, hq, ok_bind,
      (hvacant hparts).isFile, (hvacant hparts).isDir]
    rfl
  | removeDir path =>
    obtain ⟨q, hq, hparts⟩ := hop
    rw [← Path.toString_inj.2 hparts, FileSystem.perform, FileSystem.removeDir, hq, ok_bind,
      (hvacant hparts).root, (hvacant hparts).dirKey, (hvacant hparts).isFile]
    rfl
  | readDir path =>
    obtain ⟨q, hq, hparts⟩ := hop
    rw [← Path.toString_inj.2 hparts, FileSystem.perform, FileSystem.readDir, hq, ok_bind,
      (hvacant hparts).dirKey, (hvacant hparts).isFile]
    rfl
  | chdir path =>
    obtain ⟨q, hq, hparts⟩ := hop
    rw [← Path.toString_inj.2 hparts, FileSystem.perform, FileSystem.chdir, hq, ok_bind,
      (hvacant hparts).isDir, if_neg Bool.false_ne_true, (hvacant hparts).missing]
    rfl
  | setTimes path accessed modified =>
    obtain ⟨q, hq, hparts⟩ := hop
    rw [← Path.toString_inj.2 hparts, FileSystem.perform, FileSystem.setTimes, hq, ok_bind,
      (hvacant hparts).key]
    rfl
  | rename source target =>
    obtain ⟨⟨q, hq, hparts⟩, t, ht, hroot, hne⟩ := hop
    have hdiffer : ¬ q.toString = t.toString := by
      rw [Path.toString_inj, hparts]
      exact hne.symm
    have hrefused : fs.planMove source target = .error (.notFound q.toString) := by
      rw [FileSystem.planMove, hq, ok_bind, ht, ok_bind, (hvacant hparts).root, hroot, Bool.or_self,
        if_neg Bool.false_ne_true, if_neg hdiffer, (hvacant hparts).key]
      rfl
    rw [← Path.toString_inj.2 hparts, FileSystem.perform, FileSystem.rename, hrefused]
    rfl
  | _ => exact hop.elim

/-- A length past the largest size of a file is refused before the path is looked at. -/
theorem truncate_long (fs : FileSystem) (path : String) {length : Nat}
    (hlength : maxFileSize < length) :
    ∃ reason, fs.truncate path length = .error (.invalidArgument reason) := by
  have hbounded : ∃ reason, boundedEnd length 0 = .error (.invalidArgument reason) :=
    ⟨_, if_neg (by omega)⟩
  obtain ⟨reason, hrefused⟩ := hbounded
  refine ⟨reason, ?_⟩
  rw [truncate, hrefused]
  rfl

/-- What takes one kind of node for the other is refused. -/
theorem Shows.refused_mistaken (h : fs.Shows v) (world : World) {op : Operation}
    (hop : op.Mistakes fs p) : ∃ e, (fs.perform none world op).1 = .error e := by
  cases op with
  | readAll path =>
    obtain ⟨⟨q, hq, hparts⟩, hdir⟩ := hop
    obtain ⟨names, times, hv⟩ := h.exists_dir hdir
    obtain ⟨e, he⟩ := h.file_of_dir (p := q) (hparts ▸ hv)
    refine ⟨e, ?_⟩
    rw [FileSystem.perform, FileSystem.readAll, withFetched_unmounted fs world _ hq, readLocal, he]
    rfl
  | truncate path length =>
    obtain ⟨⟨q, hq, hparts⟩, hdir⟩ := hop
    obtain ⟨names, times, hv⟩ := h.exists_dir hdir
    obtain ⟨e, he⟩ := h.file_of_dir (p := q) (hparts ▸ hv)
    by_cases hlength : length ≤ maxFileSize
    · have hbounded : boundedEnd length 0 = .ok length := if_pos hlength
      refine ⟨e, ?_⟩
      rw [FileSystem.perform, FileSystem.truncate, hbounded, ok_bind, hq, ok_bind, he]
      rfl
    · obtain ⟨reason, hrefused⟩ := truncate_long fs path (Nat.lt_of_not_le hlength)
      exact ⟨_, by rw [FileSystem.perform, hrefused]; rfl⟩
  | chdir path =>
    obtain ⟨⟨q, hq, hparts⟩, hfile⟩ := hop
    obtain ⟨data, times, hv⟩ := h.exists_file hfile
    have hdir : fs.isDir q = false := by
      rw [h.table.isDir_eq, hparts, hv]
      rfl
    refine ⟨fs.missing q, ?_⟩
    rw [FileSystem.perform, FileSystem.chdir, hq, ok_bind, hdir]
    rfl
  | _ => exact hop.elim

/-! ## What a refusal says -/

/-- Whatever a request is refused with has a property. -/
def Refuses (P : Error → Prop) (result : Except Error α) : Prop := ∀ e, result = .error e → P e

namespace Refuses

variable {P : Error → Prop}

theorem ok (a : α) : Refuses P (.ok a : Except Error α) := fun e he => by cases he

theorem error (he : P e) : Refuses P (.error e : Except Error α) := by
  intro e' heq
  cases heq
  exact he

theorem bind {x : Except Error α} {rest : α → Except Error β} (hx : Refuses P x)
    (hrest : ∀ a, x = .ok a → Refuses P (rest a)) : Refuses P (x >>= rest) := by
  cases x with
  | error e => exact error (hx e rfl)
  | ok a => exact hrest a rfl

theorem map {x : Except Error α} (hx : Refuses P x) (f : α → β) : Refuses P (x.map f) := by
  cases x with
  | error e => exact error (hx e rfl)
  | ok a => exact ok (f a)

/-- A check and the rest of a request. -/
theorem check {c : Prop} [Decidable c] {rest : Except Error α} (hc : c → P e)
    (hrest : ¬ c → Refuses P rest) : Refuses P (if c then throw e else rest) := by
  split
  · next h => exact error (hc h)
  · next h => exact hrest h

theorem settle {world : World} {result : Except Error FileSystem} (h : Refuses P result) :
    Refuses P (fs.settle world result).1 := by
  cases result with
  | error e => exact error (h e rfl)
  | ok fs' => exact ok _

end Refuses

/-- A text that is no path names none. -/
theorem resolve_truthful (fs : FileSystem) (text : String) :
    Refuses (Error.Truthful fs) (fs.resolve text) := by
  intro e he
  rw [FileSystem.resolve] at he
  cases hp : fs.cwd.resolve text with
  | error e' =>
    rw [hp] at he
    cases he
    trivial
  | ok p =>
    rw [hp] at he
    cases he

theorem nodeAt_eq_none_of_key (hkey : fs.keyOf? p = none) : fs.nodeAt p = none := by
  rw [nodeAt, hkey]
  rfl

theorem setTimes_truthful (fs : FileSystem) (text : String) (accessed modified : Time) :
    Refuses (Error.Truthful fs) (fs.setTimes text accessed modified) := by
  refine (resolve_truthful fs text).bind fun p _ => ?_
  split
  · next hkey => exact .error ⟨p, rfl, nodeAt_eq_none_of_key hkey⟩
  · exact .ok _

namespace Shows

/-- Where neither a file nor a directory is, nothing is. -/
theorem nodeAt_eq_none (h : fs.Shows v) (hfile : fs.isFile p = false) (hdir : fs.isDir p = false) :
    fs.nodeAt p = none := by
  rw [h.table.isFile_eq] at hfile
  rw [h.table.isDir_eq] at hdir
  rw [h.table.nodeAt_eq]
  cases hv : v p.parts with
  | none => rfl
  | some node =>
    rw [hv] at hfile hdir
    cases node with
    | file => cases hfile
    | dir => cases hdir

/-- What is said of a path where no directory is. -/
theorem no_dir_truthful (h : fs.Shows v) (hdir : fs.isDir p = false) :
    Error.Truthful fs
      (if fs.isFile p then .notDirectory p.toString else .notFound p.toString) := by
  cases hfile : fs.isFile p with
  | true => exact ⟨p, rfl, hfile⟩
  | false => exact ⟨p, rfl, h.nodeAt_eq_none hfile hdir⟩

theorem nodeAt_of_key (h : fs.Shows v) : (fs.keyOf? p).isSome = (fs.nodeAt p).isSome := by
  rw [h.table.keyOf?_eq, h.table.nodeAt_eq, Option.isSome_map]

/-- What is said of a path where nothing was found. -/
theorem missing_truthful (h : fs.Shows v) (hfind : fs.find? p = none) :
    (fs.missing p).Truthful fs := by
  rw [h.table.find?_eq] at hfind
  rw [FileSystem.missing]
  split
  · next hfile => exact ⟨p, rfl, (Bool.and_eq_true _ _ ▸ hfile).2⟩
  next hfile =>
  refine ⟨p, rfl, ?_⟩
  cases htrailing : p.trailing with
  | true =>
    -- no directory was found, so a file could be there, but is not
    rw [htrailing, if_pos rfl, Option.filter_eq_none_iff] at hfind
    rw [htrailing, Bool.true_and, Bool.not_eq_true] at hfile
    exact h.nodeAt_eq_none hfile ((h.isDir_eq_false_iff p).2 fun node hnode =>
      Bool.not_eq_true _ ▸ hfind node hnode)
  | false =>
    rw [htrailing, if_neg Bool.false_ne_true] at hfind
    rw [h.table.nodeAt_eq, hfind]

theorem requireParent_truthful (h : fs.Shows v) (p : Path) :
    Refuses (Error.Truthful fs) (fs.requireParent p) := by
  unfold FileSystem.requireParent
  split
  · exact .ok ()
  next parent _ =>
  split
  · exact .ok ()
  next hdir =>
  split
  · next hfile => exact .error ⟨parent, rfl, hfile⟩
  · next hfile =>
    rw [Bool.not_eq_true] at hdir hfile
    exact .error ⟨parent, rfl, h.nodeAt_eq_none hfile hdir⟩

/-- What stops the making of directories is a file on the way. -/
theorem makeDirs_truthful (h : fs.Shows v) (p : Path) :
    Refuses (Error.Truthful fs) (fs.makeDirs p).1 := by
  by_cases hpass : v.Passable p.parts
  · rw [(h.makeDirs_ok_iff p).2 ((h.passable_iff p).1 hpass)]
    exact .ok ()
  · unfold View.Passable at hpass
    push Not at hpass
    obtain ⟨place, hplace, node, hv, hdir⟩ := hpass
    rw [List.prefix_iff_eq_take.1 hplace] at hv
    rw [makeDirs_eq, h.makeAbove_blocked p hplace.length_le le_rfl hv (Bool.not_eq_true _ ▸ hdir)]
    refine .error ⟨p.above place.length, rfl, ?_⟩
    have hparts : (p.above place.length).parts = p.parts.take place.length := rfl
    rw [h.table.isFile_eq, hparts, hv, Option.any_some]
    cases node with
    | file => rfl
    | dir => exact absurd rfl hdir

theorem placeFile_truthful (h : fs.Shows v) (p : Path) (data : ByteArray) :
    Refuses (Error.Truthful fs) (fs.placeFile p data).1 := by
  rw [FileSystem.placeFile, makeParents]
  cases p.parent? with
  | none => exact .ok ()
  | some parent =>
    have hmake := h.makeDirs_truthful parent
    dsimp only
    split
    · next heq =>
      rw [heq] at hmake
      exact hmake
    · exact .ok ()

theorem createFor_truthful (h : fs.Shows v) (p : Path) (mode : OpenMode) :
    Refuses (Error.Truthful fs) (fs.createFor p mode) := by
  unfold FileSystem.createFor
  split
  · exact .ok fs
  · split
    · next hfind =>
      obtain ⟨node, hnode⟩ := Option.isSome_iff_exists.1 hfind
      split
      · refine .error ⟨p, rfl, ?_⟩
        rw [h.table.nodeAt_eq, h.table.eq_of_find? hnode]
        rfl
      · exact .ok fs
    · split
      · exact .ok fs
      · exact (h.requireParent_truthful p).map _

theorem openLocal_truthful (h : fs.Shows v) (mode : OpenMode) (p : Path) :
    Refuses (Error.Truthful fs) (fs.openLocal mode p).1 := by
  -- a file that is found can be opened
  have hopen : ∀ {fs' : FileSystem} {v' : View} {data : ByteArray} {times : Times}, fs'.Shows v' →
      v' p.parts = some (.file data times) →
      Refuses (Error.Truthful fs) (fs'.openFile mode p).1 := by
    intro fs' v' data times h' hv'
    obtain ⟨n, fs'', hopened, -⟩ := h'.openFile hv' mode
    rw [hopened]
    exact .ok n
  have hcreate := h.createFor_truthful p mode
  unfold FileSystem.openLocal
  split
  · next e hrefused => exact .error (hcreate e hrefused)
  next fs' hcreated =>
  rcases h.createFor hcreated with rfl | ⟨htrailing, v', data, times, h', hv'⟩
  · split
    · next hfind => exact .error (h.missing_truthful hfind)
    · next names times hfind =>
      split
      · refine .error ⟨p, rfl, ?_⟩
        rw [h.table.isDir_eq, h.table.eq_of_find? hfind]
        rfl
      · exact .ok _
    · next data times hfind => exact hopen h (h.table.eq_of_find? hfind)
  · rw [h'.table.find?_eq, htrailing, if_neg Bool.false_ne_true, hv']
    exact hopen h' hv'

theorem statLocal_truthful (h : fs.Shows v) (p : Path) :
    Refuses (Error.Truthful fs) (fs.statLocal p).1 := by
  unfold statLocal
  split
  · exact .ok _
  · next hfind => exact .error (h.missing_truthful hfind)

theorem makeDir_truthful (h : fs.Shows v) (text : String) (recursive : Bool) :
    Refuses (Error.Truthful fs) (fs.makeDir text recursive).1 := by
  have hresolve := resolve_truthful fs text
  unfold FileSystem.makeDir
  split
  · next e hp => exact .error (hresolve e hp)
  next p hp =>
  split
  · exact h.makeDirs_truthful p
  · have hhere : Refuses (Error.Truthful fs) (fs.makeDirHere p) := by
      refine .check (fun hkey => ⟨p, rfl, h.nodeAt_of_key ▸ hkey⟩) fun _ => ?_
      exact (h.requireParent_truthful p).bind fun _ _ => .ok _
    split
    · next e hrefused => exact .error (hhere e hrefused)
    · exact .ok ()

theorem removeDir_truthful (h : fs.Shows v) (text : String) :
    Refuses (Error.Truthful fs) (fs.removeDir text) := by
  refine (resolve_truthful fs text).bind fun p _ => .check (fun _ => trivial) fun _ => ?_
  have hget := h.table.get?_dirKey p
  split
  · next name names times hdir =>
    refine .error ⟨p, _, times, rfl, ?_, List.cons_ne_nil name names⟩
    rw [hdir] at hget
    rw [h.table.nodeAt_eq]
    exact (Option.filter_eq_some_iff.1 hget.symm).1
  · exact .ok _
  · next hnone =>
    refine .error (h.no_dir_truthful ?_)
    rw [FileSystem.isDir, hnone]
    rfl

theorem unlink_truthful (h : fs.Shows v) (text : String) :
    Refuses (Error.Truthful fs) (fs.unlink text) := by
  refine (resolve_truthful fs text).bind fun p _ => .check (fun hfile => ?_) fun _ => .ok _
  rw [Bool.not_eq_true'] at hfile
  split
  · next hdir => exact ⟨p, rfl, hdir⟩
  · next hdir => exact ⟨p, rfl, h.nodeAt_eq_none hfile (Bool.not_eq_true _ ▸ hdir)⟩

theorem readDir_truthful (h : fs.Shows v) (text : String) :
    Refuses (Error.Truthful fs) (fs.readDir text) := by
  refine (resolve_truthful fs text).bind fun p _ => ?_
  split
  · exact .ok _
  · next hother =>
    refine .error (h.no_dir_truthful ?_)
    rw [FileSystem.isDir]
    cases hget : fs.nodes.get? p.dirKey with
    | none => rfl
    | some node =>
      cases node with
      | file => rfl
      | dir names times => exact absurd hget (hother names times)

/-- A move that is not planned is refused for what is at its paths. -/
theorem rename_truthful (h : fs.Shows v) (source target : String) :
    Refuses (Error.Truthful fs) (fs.rename source target).1 := by
  have hplanned : Refuses (Error.Truthful fs) (fs.planMove source target) := by
    refine (resolve_truthful fs source).bind fun s _ => (resolve_truthful fs target).bind fun t _ =>
      .check (fun _ => trivial) fun _ => ?_
    split
    · exact .ok _
    split
    · next hkey => exact .error ⟨s, rfl, nodeAt_eq_none_of_key hkey⟩
    · refine .check (fun hkey => ⟨t, rfl, h.nodeAt_of_key ▸ hkey⟩) fun _ => ?_
      refine (h.requireParent_truthful t).bind fun _ _ => ?_
      split
      · exact .check (fun _ => trivial) fun _ => .ok _
      · exact .ok _
  have hcases := h.rename_cases source target
  generalize fs.rename source target = outcome at hcases ⊢
  cases hcases with
  | refused e hplan => exact .error (hplanned e hplan)
  | idle => exact .ok ()
  | moved => exact .ok ()

theorem writeFile_truthful (h : fs.Shows v) (text : String) (data : ByteArray) :
    Refuses (Error.Truthful fs) (fs.writeFile text data).1 := by
  have hresolve := resolve_truthful fs text
  unfold FileSystem.writeFile
  split
  · next e hp => exact .error (hresolve e hp)
  next p hp =>
  split
  · next hdir => exact .error ⟨p, rfl, hdir⟩
  · exact h.placeFile_truthful p data

/-- What an operation is refused with says what is at the path that it names. -/
theorem perform_truthful (h : fs.Shows v) (world : World) {op : Operation} (hop : op.Looks) :
    Refuses (Error.Truthful fs) (fs.perform none world op).1 := by
  have hfetched : ∀ {α : Type} {text : String}
      {act : FileSystem → Path → Except Error α × FileSystem},
      (∀ p, Refuses (Error.Truthful fs) (act fs p).1) →
      Refuses (Error.Truthful fs) (FileSystem.withFetched none fs world text act).1 := by
    intro α text act hact
    cases hp : fs.resolve text with
    | error e =>
      rw [FileSystem.withFetched, hp]
      exact .error (resolve_truthful fs text e hp)
    | ok p =>
      rw [withFetched_unmounted fs world act hp]
      exact hact p
  cases op with
  | openPath path mode => exact (hfetched (h.openLocal_truthful mode)).map _
  | stat path => exact (hfetched h.statLocal_truthful).map _
  | makeDir path recursive => exact (h.makeDir_truthful path recursive).map _
  | removeDir path => exact (h.removeDir_truthful path).settle
  | unlink path => exact (h.unlink_truthful path).settle
  | rename source target => exact (h.rename_truthful source target).map _
  | setTimes path accessed modified => exact (setTimes_truthful fs path accessed modified).settle
  | readDir path => exact (h.readDir_truthful path).map _
  | writeFile path data => exact (h.writeFile_truthful path data).map _
  | resolve path => exact (resolve_truthful fs path).map _
  | contains | cwd | takeStdout | takeStderr | clearOutput => exact .ok _
  | close | read | write | statDescriptor | truncateDescriptor => exact hop.elim
  | truncate | readAll | chdir => exact hop.elim

end Shows

/-- Without a mount a request is refused with what is at its path: `EISDIR` if a directory is there
    and it wants a file, `ENOTDIR` if a file is there and it wants a directory, and `ENOENT` if
    nothing is there and it needs something. What takes one kind of node for the other is refused.
    Where an operation looks for both kinds, no error says of a path what is not so. A length past
    the largest size of a file is refused as such. -/
theorem Reachable.errors_tell (h : Reachable fs) (world : World) (p : Path) (op : Operation) :
    (fs.isDir p = true → op.WantsFile fs p →
      (fs.perform none world op).1 = .error (.isDirectory p.toString)) ∧
    (fs.isFile p = true → op.WantsDirectory fs p →
      (fs.perform none world op).1 = .error (.notDirectory p.toString)) ∧
    (fs.nodeAt p = none → op.WantsNode fs p →
      (fs.perform none world op).1 = .error (.notFound p.toString)) ∧
    (op.Mistakes fs p → ∃ e, (fs.perform none world op).1 = .error e) ∧
    (op.Looks → ∀ e, (fs.perform none world op).1 = .error e → e.Truthful fs) ∧
    (∀ path length, op = .truncate path length → maxFileSize < length →
      ∃ reason, (fs.perform none world op).1 = .error (.invalidArgument reason)) := by
  obtain ⟨v, hv⟩ := h.shows
  refine ⟨hv.refused_isDirectory world, hv.refused_notDirectory world, hv.refused_notFound world,
    hv.refused_mistaken world, hv.perform_truthful world, ?_⟩
  rintro path length rfl hlength
  obtain ⟨reason, hrefused⟩ := truncate_long fs path hlength
  refine ⟨reason, ?_⟩
  rw [FileSystem.perform, hrefused]
  rfl

/-- A directory and a file. -/
def assorted : FileSystem :=
  (performAll none (empty ⟨0, 0⟩) () [.makeDir "/d" false, .writeFile "/f" "text".toUTF8]).2.1

/-- A directory is not unlinked, a file is not listed, and nothing is not moved. -/
theorem errors_tell_assorted :
    (assorted.perform none () (.unlink "/d/")).1 = .error (.isDirectory "/d") ∧
      (assorted.perform none () (.readDir "/d/../f")).1 = .error (.notDirectory "/f") ∧
      (assorted.perform none () (.rename "/x" "/d/x")).1 = .error (.notFound "/x") := by
  have hreachable : Reachable assorted := .performAll none _ () (.new ⟨0, 0⟩)
  have hd : assorted.resolve "/d/" = .ok ⟨["d"], true, by decide, by decide⟩ := by decide +kernel
  have hf : assorted.resolve "/d/../f" = .ok ⟨["f"], false, by decide, by decide⟩ := by
    decide +kernel
  have hx : assorted.resolve "/x" = .ok ⟨["x"], false, by decide, by decide⟩ := by decide +kernel
  have ht : assorted.resolve "/d/x" = .ok ⟨["d", "x"], false, by decide, by decide⟩ := by
    decide +kernel
  exact ⟨(Reachable.errors_tell hreachable () _ (.unlink "/d/")).1 rfl ⟨_, hd, rfl⟩,
    (Reachable.errors_tell hreachable () _ (.readDir "/d/../f")).2.1 rfl ⟨_, hf, rfl⟩,
    (Reachable.errors_tell hreachable () _ (.rename "/x" "/d/x")).2.2.1 rfl
      ⟨⟨_, hx, rfl⟩, _, ht, rfl, by decide⟩⟩

/-- A directory is not told to one who would cut it to too great a length. -/
theorem long_truncate_not_isDirectory :
    ¬ ∀ (fs : FileSystem) (path : String) (p : Path) (length : Nat), Reachable fs →
      fs.resolve path = .ok p → p.isRoot = false → p.trailing = false → fs.isDir p = true →
      ∃ e, (fs.perform none () (.truncate path length)).1 = .error e ∧ e.code = "EISDIR" := by
  intro hclaim
  have hd : assorted.resolve "/d" = .ok ⟨["d"], false, by decide, by decide⟩ := by decide +kernel
  obtain ⟨e, he, hcode⟩ := hclaim assorted "/d" _ (maxFileSize + 1)
    (.performAll none _ () (.new ⟨0, 0⟩)) hd rfl rfl rfl
  obtain ⟨reason, hrefused⟩ := truncate_long assorted "/d" (Nat.lt_succ_self maxFileSize)
  rw [perform, hrefused] at he
  cases he
  have hsame : "EINVAL" = "EISDIR" := hcode
  exact absurd hsame (by decide)

end Workbench.FileSystem
