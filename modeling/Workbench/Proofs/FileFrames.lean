import Workbench.Proofs.Footprint
import Workbench.Proofs.TreeInvariant

set_option autoImplicit false

/-! # What happens to one file

A file keeps its bytes through every operation but those that are aimed at it: it may be emptied
when it is opened, written or cut through a path or a descriptor, and it goes when it is unlinked or
when it, or a directory above it, is moved. Moving something else to its place is refused, and so is
removing a directory above it. -/

namespace Workbench.FileSystem

variable {World α : Type} {v : View} {fs fs' : FileSystem} {p q : Path}

/-- The bytes of the file at a path, if there is one. -/
def bytesAt (fs : FileSystem) (p : Path) : Option ByteArray :=
  match fs.nodes.get? p.fileKey with
  | some (.file data _) => some data
  | _ => none

/-- A text leads to a path. -/
def Names (fs : FileSystem) (text : String) (p : Path) : Prop :=
  ∃ q, fs.resolve text = .ok q ∧ q.parts = p.parts

/-- An operation may put other bytes into the file at a path. -/
def Operation.Rewrites (fs : FileSystem) (p : Path) : Operation → Prop
  | .openPath path mode => mode.truncate = true ∧ fs.Names path p
  | .write number _ _ | .truncateDescriptor number _ =>
    ∃ d, fs.descriptors.get? number = some d ∧ d.path.parts = p.parts
  | .truncate path _ | .writeFile path _ => fs.Names path p
  | _ => False

/-- An operation takes away what is at a path, if it is granted: by unlinking it, or by moving it or
    a directory above it. -/
def Operation.Removes (fs : FileSystem) (p : Path) : Operation → Prop
  | .unlink path => fs.Names path p
  | .rename source target => ∃ s t, fs.resolve source = .ok s ∧ fs.resolve target = .ok t ∧
      s.parts ≠ t.parts ∧ s.parts <+: p.parts
  | _ => False

/-! ## Looking -/

theorem bytesAt_eq_some_iff {data : ByteArray} :
    fs.bytesAt p = some data ↔ ∃ times, fs.nodes.get? p.fileKey = some (.file data times) := by
  unfold bytesAt
  split
  · next data' times hget => simp [hget]
  · next hother =>
    simp only [reduceCtorEq, false_iff]
    rintro ⟨times, hget⟩
    exact hother data times hget

theorem isFile_eq_isSome (fs : FileSystem) (p : Path) : fs.isFile p = (fs.bytesAt p).isSome := by
  unfold isFile bytesAt
  cases fs.nodes.get? p.fileKey with
  | none => rfl
  | some node => cases node <;> rfl

theorem bytesAt_congr (h : fs'.nodes.get? p.fileKey = fs.nodes.get? p.fileKey) :
    fs'.bytesAt p = fs.bytesAt p := by
  unfold bytesAt
  rw [h]

theorem bytesAt_eq_of_parts (fs : FileSystem) (h : q.parts = p.parts) :
    fs.bytesAt q = fs.bytesAt p := by
  unfold bytesAt
  rw [Path.fileKey_inj.2 h]

theorem file_eq_ok {data : ByteArray} {times : Times} (h : fs.file q = .ok (data, times)) :
    fs.bytesAt q = some data := by
  unfold file at h
  split at h
  · next hget =>
    cases h
    exact bytesAt_eq_some_iff.2 ⟨_, hget⟩
  · cases h
  · cases h

/-- A path that is not spelled as a directory leads to the file that is there. -/
theorem find?_isSome_of_bytesAt (h : (fs.bytesAt q).isSome) (htrailing : q.trailing = false) :
    (fs.find? q).isSome := by
  obtain ⟨data, hdata⟩ := Option.isSome_iff_exists.1 h
  obtain ⟨times, hget⟩ := bytesAt_eq_some_iff.1 hdata
  unfold find?
  rw [htrailing, if_neg Bool.false_ne_true, hget]
  rfl

/-! ## Changing nodes elsewhere -/

theorem fileKey_ne_dirKeys (hp : p.parts ≠ []) : ∀ d : Path, p.fileKey ≠ d.dirKey :=
  fun d => Path.fileKey_ne_dirKey hp d

/-- The key of a file is beside every other path. -/
theorem Beside.of_ne (hp : p.parts ≠ []) (hne : q.parts ≠ p.parts) : Beside q p.fileKey :=
  ⟨fun heq => hne (Path.fileKey_inj.1 heq).symm, fun d _ _ => fileKey_ne_dirKeys hp d⟩

theorem bytesAt_link (hp : p.parts ≠ []) : (fs.link q).bytesAt p = fs.bytesAt p :=
  bytesAt_congr (get?_link fun parent _ => fileKey_ne_dirKeys hp parent)

theorem bytesAt_unlinkName (hp : p.parts ≠ []) : (fs.unlinkName q).bytesAt p = fs.bytesAt p := by
  refine bytesAt_congr ?_
  unfold unlinkName
  split
  · next parent name hparent hname =>
    show (fs.nodes.update parent.dirKey _).get? p.fileKey = _
    rw [Dictionary.get?_update, if_neg (fileKey_ne_dirKeys hp parent).symm]
  · rfl

theorem bytesAt_setFile (fs : FileSystem) (q : Path) (data : ByteArray) (times : Times) :
    (fs.setFile q data times).bytesAt p =
      if q.parts = p.parts then some data else fs.bytesAt p := by
  have hget : (fs.setFile q data times).nodes.get? p.fileKey =
      if q.fileKey = p.fileKey then some (.file data times) else fs.nodes.get? p.fileKey :=
    Dictionary.get?_put _ _ _ _
  unfold bytesAt
  rw [hget]
  simp only [Path.fileKey_inj]
  split_ifs <;> rfl

/-- Setting the times of a file leaves all bytes alone. -/
theorem bytesAt_touch {data : ByteArray} {times : Times} (h : fs.file q = .ok (data, times))
    (times' : Times) : (fs.setFile q data times').bytesAt p = fs.bytesAt p := by
  rw [bytesAt_setFile]
  split_ifs with hparts
  · rw [← bytesAt_eq_of_parts fs hparts, file_eq_ok h]
  · rfl

theorem bytesAt_putFile (hp : p.parts ≠ []) (data : ByteArray) :
    (fs.putFile q data).bytesAt p = if q.parts = p.parts then some data else fs.bytesAt p := by
  unfold putFile
  rw [bytesAt_link hp]
  exact bytesAt_setFile fs q data (.stamp fs.clock)

theorem bytesAt_makeDirs (hp : p.parts ≠ []) : (fs.makeDirs q).2.bytesAt p = fs.bytesAt p :=
  bytesAt_congr (get?_makeDirs fun d _ => fileKey_ne_dirKeys hp d)

theorem bytesAt_putDir (hp : p.parts ≠ []) : (fs.putDir q).bytesAt p = fs.bytesAt p :=
  bytesAt_congr (get?_putDir fun d _ => fileKey_ne_dirKeys hp d)

/-- A file is put, or what stands in its way is left as it is. -/
theorem bytesAt_placeFile (hp : p.parts ≠ []) (data : ByteArray) :
    (fs.placeFile q data).2.bytesAt p = fs.bytesAt p ∨
      q.parts = p.parts ∧ (fs.placeFile q data).2.bytesAt p = some data := by
  by_cases hparts : q.parts = p.parts
  · have hparents : (fs.makeParents q).2.bytesAt p = fs.bytesAt p := by
      rcases makeParents_left fs q with hleft | ⟨parent, -, hleft⟩
      · rw [hleft]
      · rw [hleft, bytesAt_makeDirs hp]
    rcases placeFile_left fs q data with hleft | hleft
    · rw [hleft]
      exact Or.inl hparents
    · rw [hleft, bytesAt_putFile hp, if_pos hparts]
      exact Or.inr ⟨hparts, rfl⟩
  · exact Or.inl (bytesAt_congr (get?_placeFile (.of_ne hp hparts) data))

/-- What is fetched never takes the place of a file. -/
theorem bytesAt_populate (hp : p.parts ≠ []) (hfile : (fs.bytesAt p).isSome)
    (mount : Option (Asset.Mount World)) (world : World) :
    (populate mount fs world q).2.1.bytesAt p = fs.bytesAt p := by
  by_cases hparts : q.parts = p.parts
  · rw [← bytesAt_eq_of_parts fs hparts] at hfile
    rcases populate_left mount fs world q with hleft | ⟨m, bytes, -, hfree, hspelled, -⟩
    · rw [hleft]
    · -- something would have been found at a path that is not spelled as a directory
      have hfound := find?_isSome_of_bytesAt hfile hspelled
      rw [hfree] at hfound
      cases hfound
  · exact bytesAt_congr (get?_populate (.of_ne hp hparts) mount fs world)

/-- A file that is there is not looked for in a mount. -/
theorem populate_of_bytesAt (hfile : (fs.bytesAt p).isSome) (mount : Option (Asset.Mount World))
    (world : World) : populate mount fs world p = (.ok (), fs, world) := by
  cases hspelled : p.trailing with
  | true => exact populate_of_uncovered (fun _ _ => Or.inl hspelled) fs world
  | false => exact populate_of_isSome (find?_isSome_of_bytesAt hfile hspelled) mount world

/-! ## Opening, looking and reading -/

theorem bytesAt_readLocal : (fs.readLocal q).2.bytesAt p = fs.bytesAt p := by
  rcases readLocal_left fs q with hleft | ⟨data, times, hfile, hleft⟩
  · rw [hleft]
  · rw [hleft, bytesAt_touch hfile]

theorem bytesAt_createFor (hp : p.parts ≠ []) (hfile : (fs.bytesAt p).isSome) {mode : OpenMode}
    (hok : fs.createFor q mode = .ok fs') : fs'.bytesAt p = fs.bytesAt p := by
  rcases createFor_eq_ok hok with rfl | ⟨-, hfree, hspelled, -, rfl⟩
  · rfl
  · rw [bytesAt_putFile hp, if_neg]
    intro hparts
    rw [← bytesAt_eq_of_parts fs hparts] at hfile
    have hfound := find?_isSome_of_bytesAt hfile hspelled
    rw [hfree] at hfound
    cases hfound

/-- Opening empties the file that is opened, if the mode says so, and no other. -/
theorem bytesAt_openLocal (hp : p.parts ≠ []) (hfile : (fs.bytesAt p).isSome) (mode : OpenMode) :
    (openLocal mode fs q).2.bytesAt p = fs.bytesAt p ∨
      mode.truncate = true ∧ q.parts = p.parts ∧
        (openLocal mode fs q).2.bytesAt p = some .empty := by
  have hsame : ∀ fs₁, fs.createFor q mode = .ok fs₁ → fs₁.bytesAt p = fs.bytesAt p :=
    fun _ => bytesAt_createFor hp hfile
  have houtcome := openLocal_outcome mode fs q
  generalize openLocal mode fs q = outcome at houtcome ⊢
  cases houtcome with
  | uncreated => exact Or.inl rfl
  | refused e fs₁ hcreated => exact Or.inl (hsame fs₁ hcreated)
  | dir fs₁ hcreated => exact Or.inl (hsame fs₁ hcreated)
  | file fs₁ data times hcreated => exact Or.inl (hsame fs₁ hcreated)
  | emptied fs₁ data times hcreated _ htruncate =>
    have hset := bytesAt_setFile (p := p) fs₁ q ByteArray.empty { times with modified := fs₁.clock }
    split_ifs at hset with hparts
    · exact Or.inr ⟨htruncate, hparts, hset⟩
    · exact Or.inl (hset.trans (hsame fs₁ hcreated))

/-! ## Operations on descriptors and nodes -/

theorem setFile_or_same (fs : FileSystem) (p q : Path) (data : ByteArray) (times : Times) :
    (fs.setFile q data times).bytesAt p = fs.bytesAt p ∨
      q.parts = p.parts ∧ ((fs.setFile q data times).bytesAt p).isSome := by
  rw [bytesAt_setFile]
  split_ifs with hparts
  · exact Or.inr ⟨hparts, rfl⟩
  · exact Or.inl rfl

theorem bytesAt_read (number length : Nat) (position : Option Nat) :
    (fs.read number length position).2.bytesAt p = fs.bytesAt p := by
  have houtcome := read_outcome fs number length position
  generalize fs.read number length position = outcome at houtcome ⊢
  cases houtcome with
  | stream => rfl
  | refused => rfl
  | missing => rfl
  | found d data times start bytes _ hfile =>
    have hmoved : (fs.setCursor number (position.getD d.cursor)).file d.path = .ok (data, times) :=
      hfile
    exact bytesAt_touch hmoved _

theorem write_or_same {number n : Nat} {bytes : ByteArray} {position : Option Nat}
    (hok : fs.write number bytes position = .ok (n, fs')) : fs'.bytesAt p = fs.bytesAt p ∨
      (∃ d, fs.descriptors.get? number = some d ∧ d.path.parts = p.parts) ∧
        (fs'.bytesAt p).isSome := by
  cases (written_of_write hok).2 with
  | stdout => exact Or.inl rfl
  | stderr => exact Or.inl rfl
  | file d data times offset _ hd =>
    exact (setFile_or_same fs p d.path _ _).imp_right fun h => ⟨⟨d, hd, h.1⟩, h.2⟩

theorem truncateDescriptor_or_same {number length : Nat}
    (hok : fs.truncateDescriptor number length = .ok fs') : fs'.bytesAt p = fs.bytesAt p ∨
      (∃ d, fs.descriptors.get? number = some d ∧ d.path.parts = p.parts) ∧
        (fs'.bytesAt p).isSome := by
  obtain ⟨d, data, times, hd, -, -, -, rfl⟩ := truncateDescriptor_eq_ok_iff.1 hok
  exact (setFile_or_same fs p d.path _ _).imp_right fun h => ⟨⟨d, hd, h.1⟩, h.2⟩

theorem truncate_or_same {text : String} {length : Nat} (hok : fs.truncate text length = .ok fs') :
    fs'.bytesAt p = fs.bytesAt p ∨ fs.Names text p ∧ (fs'.bytesAt p).isSome := by
  obtain ⟨q, data, times, hq, -, -, rfl⟩ := truncate_eq_ok_iff.1 hok
  exact (setFile_or_same fs p q _ _).imp_right fun h => ⟨⟨q, hq, h.1⟩, h.2⟩

theorem bytesAt_setTimes {text : String} {accessed modified : Time}
    (hok : fs.setTimes text accessed modified = .ok fs') : fs'.bytesAt p = fs.bytesAt p := by
  obtain ⟨q, key, -, -, rfl⟩ := setTimes_eq_ok_iff.1 hok
  unfold bytesAt
  dsimp only
  rw [Dictionary.get?_update]
  split_ifs
  · cases fs.nodes.get? p.fileKey with
    | none => rfl
    | some node => cases node <;> rfl
  · rfl

theorem bytesAt_makeDir (hp : p.parts ≠ []) (text : String) (recursive : Bool) :
    (fs.makeDir text recursive).2.bytesAt p = fs.bytesAt p := by
  rcases makeDir_left fs text recursive with hleft | ⟨q, -, hleft | hleft⟩
  · rw [hleft]
  · rw [hleft, bytesAt_makeDirs hp]
  · rw [hleft, bytesAt_putDir hp]

theorem bytesAt_removeDir (hp : p.parts ≠ []) {text : String}
    (hok : fs.removeDir text = .ok fs') : fs'.bytesAt p = fs.bytesAt p := by
  obtain ⟨q, node, -, -, -, -, rfl⟩ := removeDir_eq_ok_iff.1 hok
  rw [bytesAt_unlinkName hp]
  refine bytesAt_congr ?_
  rw [remove, Dictionary.get?_remove, if_neg (fileKey_ne_dirKeys hp q).symm]

theorem unlink_or_same (hp : p.parts ≠ []) {text : String} (hok : fs.unlink text = .ok fs') :
    fs'.bytesAt p = fs.bytesAt p ∨ fs.Names text p := by
  obtain ⟨q, hq, -, rfl⟩ := unlink_eq_ok_iff.1 hok
  by_cases hparts : q.parts = p.parts
  · exact Or.inr ⟨q, hq, hparts⟩
  · rw [bytesAt_unlinkName hp]
    refine Or.inl (bytesAt_congr ?_)
    rw [remove, Dictionary.get?_remove, if_neg fun hkey => hparts (Path.fileKey_inj.1 hkey)]

theorem writeFile_or_same (hp : p.parts ≠ []) (text : String) (data : ByteArray) :
    (fs.writeFile text data).2.bytesAt p = fs.bytesAt p ∨
      fs.Names text p ∧ ((fs.writeFile text data).2.bytesAt p).isSome := by
  rcases writeFile_left fs text data with hleft | ⟨q, hq, -, hleft⟩
  · rw [hleft]
    exact Or.inl rfl
  · rw [hleft]
    refine (bytesAt_placeFile hp data).imp_right ?_
    rintro ⟨hparts, hsome⟩
    rw [hsome]
    exact ⟨⟨q, hq, hparts⟩, rfl⟩

/-- A local operation on a path, after what is there was fetched. -/
theorem withFetched_or_same (hp : p.parts ≠ []) (hfile : (fs.bytesAt p).isSome)
    (mount : Option (Asset.Mount World)) (world : World) (text : String)
    (act : FileSystem → Path → Except Error α × FileSystem) {P : Prop}
    (hact : ∀ fs₁ q, (fs₁.bytesAt p).isSome → (act fs₁ q).2.bytesAt p = fs₁.bytesAt p ∨
      P ∧ q.parts = p.parts ∧ ((act fs₁ q).2.bytesAt p).isSome) :
    (withFetched mount fs world text act).2.1.bytesAt p = fs.bytesAt p ∨
      P ∧ fs.Names text p ∧ ((withFetched mount fs world text act).2.1.bytesAt p).isSome := by
  rcases withFetched_left mount fs world text act with hleft | ⟨q, hq, hleft⟩
  · rw [hleft]
    exact Or.inl rfl
  have hpopulate := bytesAt_populate (q := q) hp hfile mount world
  rcases hleft with hleft | hleft
  · rw [hleft]
    exact Or.inl hpopulate
  · rw [hleft]
    rcases hact _ q (by rw [hpopulate]; exact hfile) with hsame | ⟨hP, hparts, hsome⟩
    · exact Or.inl (hsame.trans hpopulate)
    · exact Or.inr ⟨hP, ⟨q, hq, hparts⟩, hsome⟩

/-! ## Moving -/

theorem planMove_names {source target : String} {move : Move}
    (hplan : fs.planMove source target = .ok move) : move = .none ∨
      ∃ s t, fs.resolve source = .ok s ∧ fs.resolve target = .ok t ∧ s.parts ≠ t.parts ∧
        (move = .file s t ∨ move = .dir s t) := by
  simp only [planMove, throw_bind, bind_eq_ok_iff, check_eq_ok_iff] at hplan
  obtain ⟨s, hs, t, ht, -, hplan⟩ := hplan
  split at hplan
  · exact Or.inl (Except.ok.inj hplan).symm
  next hne =>
  rw [Path.toString_inj] at hne
  refine Or.inr ⟨s, t, hs, ht, hne, ?_⟩
  split at hplan
  · cases hplan
  · simp only [check_eq_ok_iff, bind_eq_ok_iff] at hplan
    obtain ⟨-, _, -, hplan⟩ := hplan
    split at hplan
    · simp only [check_eq_ok_iff, pure_eq_ok_iff] at hplan
      exact Or.inr hplan.2.symm
    · exact Or.inl (Except.ok.inj hplan).symm

namespace Shows

theorem parts_ne_nil_of_bytesAt (h : fs.Shows v) (hfile : (fs.bytesAt p).isSome) :
    p.parts ≠ [] := by
  obtain ⟨data, hdata⟩ := Option.isSome_iff_exists.1 hfile
  obtain ⟨times, hget⟩ := bytesAt_eq_some_iff.1 hdata
  intro hp
  obtain ⟨node, hnode, -, hdir⟩ := h.table.get?_fileKey_root hp
  rw [hget] at hnode
  cases hnode
  cases hdir

/-- A move that does not begin at a file or above it leaves it where it is. -/
theorem bytesAt_carryOut (h : fs.Shows v) (hfile : (fs.bytesAt p).isSome) {source target : Path}
    {node : Node} (hmovable : Movable v source target node) (hnot : ¬ source.parts <+: p.parts) :
    (fs.carryOut (if node.isDir then .dir source target else .file source target)).2.bytesAt p =
      fs.bytesAt p := by
  have hp := h.parts_ne_nil_of_bytesAt hfile
  -- nothing was at the target or below it, so the file is not there
  have htarget : ¬ target.parts <+: p.parts := by
    intro hpre
    have hnone := h.tree.none_under hmovable.free hpre
    rw [← isFile_eq_isSome, h.table.isFile_eq, hnone] at hfile
    cases hfile
  have hview : v.move source.parts target.parts p.parts = v p.parts :=
    View.move_of_other v hnot htarget
  have hmoved : ∀ {nodes : Dictionary String Node},
      Represents nodes (v.move source.parts target.parts) →
      nodes.get? p.fileKey = fs.nodes.get? p.fileKey := by
    intro nodes hnodes
    rw [hnodes.get?_fileKey hp, h.table.get?_fileKey hp, hview]
  cases hkind : node.isDir with
  | true =>
    obtain ⟨descriptors, hfollow⟩ :=
      followDir_eq_ok hmovable.source_ne hmovable.target_ne fs.descriptors
    rw [if_pos rfl, FileSystem.carryOut, hfollow]
    dsimp only
    rw [FileSystem.relink, bytesAt_link hp, bytesAt_unlinkName hp]
    exact bytesAt_congr
      (hmoved (h.moveNodes hmovable.there hkind hmovable.source_ne hmovable.free))
  | false =>
    rw [if_neg Bool.false_ne_true, FileSystem.carryOut]
    dsimp only
    rw [FileSystem.relink, bytesAt_link hp, bytesAt_unlinkName hp]
    exact bytesAt_congr (hmoved (h.moveNode hmovable.there hkind hmovable.free))

theorem bytesAt_rename (h : fs.Shows v) (hfile : (fs.bytesAt p).isSome) {source target : String}
    (hnot : ∀ s t, fs.resolve source = .ok s → fs.resolve target = .ok t → s.parts ≠ t.parts →
      ¬ s.parts <+: p.parts) :
    (fs.rename source target).2.bytesAt p = fs.bytesAt p := by
  rcases rename_left fs source target with hleft | ⟨move, hplan, hleft⟩
  · rw [hleft]
  rw [hleft]
  rcases h.planMove hplan with rfl | ⟨s, t, node, hmovable, rfl⟩
  · rfl
  · refine h.bytesAt_carryOut hfile hmovable ?_
    rcases planMove_names hplan with hnone | ⟨s', t', hs', ht', hne, hmove⟩
    · split_ifs at hnone
    · split_ifs at hmove
      · rcases hmove with hmove | hmove
        · cases hmove
        · cases hmove
          exact hnot s t hs' ht' hne
      · rcases hmove with hmove | hmove
        · cases hmove
          exact hnot s t hs' ht' hne
        · cases hmove

/-! ## Every operation -/

/-- A renaming that is refused leaves everything as it is. -/
theorem rename_refused (h : fs.Shows v) {source target : String} {e : Error}
    (hrefused : (fs.rename source target).1 = .error e) : (fs.rename source target).2 = fs := by
  unfold FileSystem.rename at hrefused ⊢
  split
  · rfl
  next move hplan =>
  rw [hplan] at hrefused
  rcases h.planMove hplan with rfl | ⟨s, t, node, hmovable, rfl⟩
  · rfl
  · obtain ⟨fs', hdone, -⟩ := h.carryOut hmovable
    dsimp only at hrefused
    rw [hdone] at hrefused
    cases hrefused

/-- The bytes of a file after an operation are what they were, unless the operation may rewrite or
    remove it. -/
theorem bytesAt_perform (h : fs.Shows v) (hfile : (fs.bytesAt p).isSome)
    (mount : Option (Asset.Mount World)) (world : World) (op : Operation) :
    (fs.perform mount world op).2.1.bytesAt p = fs.bytesAt p ∨
      op.Rewrites fs p ∧ ((fs.perform mount world op).2.1.bytesAt p).isSome ∨
      op.Removes fs p ∧ ∃ reply, (fs.perform mount world op).1 = .ok reply := by
  have hp := h.parts_ne_nil_of_bytesAt hfile
  -- what either fails and changes nothing, or is granted and leaves the bytes
  have hsettle : ∀ {result : Except Error FileSystem},
      (∀ fs', result = .ok fs' → fs'.bytesAt p = fs.bytesAt p) →
      (settle fs world result).2.1.bytesAt p = fs.bytesAt p := by
    intro result hok
    rcases settle_left fs world result with hleft | ⟨fs', hresult, hleft⟩
    · rw [hleft]
    · rw [hleft, hok fs' hresult]
  cases op with
  | openPath path mode =>
    refine (withFetched_or_same (P := mode.truncate = true) hp hfile mount world path
      (openLocal mode) fun fs₁ q hsome => ?_).imp_right fun h => Or.inl ⟨⟨h.1, h.2.1⟩, h.2.2⟩
    refine (bytesAt_openLocal hp hsome mode).imp_right fun h => ⟨h.1, h.2.1, ?_⟩
    rw [h.2.2]
    rfl
  | stat path =>
    refine Or.inl ((withFetched_or_same (P := False) hp hfile mount world path
      statLocal fun fs₁ q _ => Or.inl ?_).resolve_right fun h => h.1)
    rw [statLocal_left]
  | readAll path =>
    exact Or.inl ((withFetched_or_same (P := False) hp hfile mount world path
      readLocal fun fs₁ q _ => Or.inl bytesAt_readLocal).resolve_right fun h => h.1)
  | close number =>
    refine Or.inl (hsettle fun fs' hok => ?_)
    rcases close_eq_ok_iff.1 hok with ⟨-, rfl⟩ | ⟨-, -, rfl⟩ <;> rfl
  | read number length position => exact Or.inl (bytesAt_read number length position)
  | write number data position =>
    rw [FileSystem.perform]
    split
    · next hwrite => exact (write_or_same hwrite).imp_right Or.inl
    · exact Or.inl rfl
  | truncateDescriptor number length =>
    rw [FileSystem.perform]
    cases hresult : fs.truncateDescriptor number length with
    | error e => exact Or.inl rfl
    | ok fs' => exact (truncateDescriptor_or_same hresult).imp_right Or.inl
  | truncate path length =>
    rw [FileSystem.perform]
    cases hresult : fs.truncate path length with
    | error e => exact Or.inl rfl
    | ok fs' => exact (truncate_or_same hresult).imp_right Or.inl
  | makeDir path recursive => exact Or.inl (bytesAt_makeDir hp path recursive)
  | removeDir path => exact Or.inl (hsettle fun _ => bytesAt_removeDir hp)
  | unlink path =>
    rw [FileSystem.perform]
    cases hresult : fs.unlink path with
    | error e => exact Or.inl rfl
    | ok fs' => exact (unlink_or_same hp hresult).imp_right fun h => Or.inr ⟨h, _, rfl⟩
  | rename source target =>
    by_cases hremoves : Operation.Removes fs p (.rename source target)
    · cases hresult : (fs.rename source target).1 with
      | error e =>
        have hsame := h.rename_refused hresult
        refine Or.inl ?_
        rw [FileSystem.perform, finish, hsame]
      | ok =>
        refine Or.inr (Or.inr ⟨hremoves, .done, ?_⟩)
        rw [FileSystem.perform, finish, hresult]
        rfl
    · refine Or.inl (h.bytesAt_rename hfile fun s t hs ht hne hpre => ?_)
      exact hremoves ⟨s, t, hs, ht, hne, hpre⟩
  | setTimes path accessed modified => exact Or.inl (hsettle fun _ => bytesAt_setTimes)
  | writeFile path data => exact (writeFile_or_same hp path data).imp_right Or.inl
  | chdir path =>
    refine Or.inl (hsettle fun fs' hok => ?_)
    obtain ⟨q, -, -, rfl⟩ := chdir_eq_ok_iff.1 hok
    rfl
  | statDescriptor | readDir | contains | cwd | resolve => exact Or.inl rfl
  | takeStdout | takeStderr | clearOutput => exact Or.inl rfl

end Shows

end Workbench.FileSystem
