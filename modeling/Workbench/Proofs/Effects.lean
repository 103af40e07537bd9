import Workbench.FileSystem.Operation
import Workbench.Proofs.Granted

set_option autoImplicit false

/-! # What operations have done

What an operation has seen on its way and what it leaves, read off its definition once. A request
that checks before it acts either leaves everything or is granted: of these it is said when they are
granted and which file system they yield. A request that may change something and still be refused
leaves one of a few file systems, whatever it answers: of these it is said which. Arguments about
operations begin from here and do not open the definitions again. -/

namespace Workbench.FileSystem

variable {World α : Type} {fs fs' : FileSystem} {p : Path} {text : String}

/-! ## Descriptors -/

theorem descriptor_eq_ok_iff {number : Nat} {d : Descriptor} :
    fs.descriptor number = .ok d ↔ fs.descriptors.get? number = some d := by
  unfold descriptor
  cases fs.descriptors.get? number <;> simp

/-- A file can be read through a descriptor that was opened on a file for reading. -/
theorem readableDescriptor_eq_ok_iff {number : Nat} {d : Descriptor} :
    fs.readableDescriptor number = .ok d ↔
      fs.descriptors.get? number = some d ∧ d.mode.readable = true ∧ d.isDir = false := by
  simp only [readableDescriptor, throw_bind, bind_eq_ok_iff, check_eq_ok_iff, pure_eq_ok_iff,
    descriptor_eq_ok_iff, Bool.not_eq_true', Bool.not_eq_false, Bool.not_eq_true]
  constructor
  · rintro ⟨found, hd, hmode, hfile, rfl⟩
    exact ⟨hd, hmode, hfile⟩
  · rintro ⟨hd, hmode, hfile⟩
    exact ⟨d, hd, hmode, hfile, rfl⟩

/-- An end that is granted is what it is to be, and within the largest size. -/
theorem boundedEnd_eq_ok_iff {offset length finish : Nat} :
    boundedEnd offset length = .ok finish ↔
      finish = offset + length ∧ offset + length ≤ maxFileSize := by
  unfold boundedEnd
  split
  · next hle => simp [hle, eq_comm]
  · next hle => simp [hle]

/-- Closing a standard stream does nothing, and any other descriptor that is closed was open. -/
theorem close_eq_ok_iff {number : Nat} : fs.close number = .ok fs' ↔
    number < firstDescriptor ∧ fs' = fs ∨
      firstDescriptor ≤ number ∧ (fs.descriptors.get? number).isSome ∧
        fs' = { fs with descriptors := fs.descriptors.remove number } := by
  unfold close
  by_cases hnumber : number < firstDescriptor
  · rw [if_pos hnumber, pure_eq_ok_iff, eq_comm]
    simp only [hnumber, Nat.not_le.2 hnumber, true_and, false_and, or_false]
  · rw [if_neg hnumber]
    simp only [hnumber, Nat.not_lt.1 hnumber, bind_eq_ok_iff, descriptor_eq_ok_iff, pure_eq_ok_iff,
      Option.isSome_iff_exists, true_and, false_and, false_or, exists_and_right]
    rw [@eq_comm _ fs']

/-- What a read comes to. The first standard stream is empty. A descriptor that is not open for
    reading a file is refused. Otherwise the cursor is moved to where the read begins before the file
    is looked for, and behind what was read once it is found. -/
inductive ReadOutcome (fs : FileSystem) (number length : Nat) (position : Option Nat) :
    Except Error ByteArray × FileSystem → Prop where
  | stream (is : number = 0) : ReadOutcome fs number length position (.ok .empty, fs)
  | refused (e : Error) (unreadable : fs.readableDescriptor number = .error e) :
      ReadOutcome fs number length position (.error e, fs)
  | missing (d : Descriptor) (e : Error) (opened : fs.readableDescriptor number = .ok d)
      (absent : fs.file d.path = .error e) :
      ReadOutcome fs number length position
        (.error e, fs.setCursor number (position.getD d.cursor))
  | found (d : Descriptor) (data : ByteArray) (times : Times) (start : Nat) (bytes : ByteArray)
      (opened : fs.readableDescriptor number = .ok d) (there : fs.file d.path = .ok (data, times))
      (starts : start = min (position.getD d.cursor) data.size)
      (taken : bytes = data.extract start (start + length)) :
      ReadOutcome fs number length position
        (.ok bytes, (((fs.setCursor number (position.getD d.cursor)).setFile d.path data
          { times with accessed := fs.clock }).setCursor number (start + bytes.size)))

theorem read_outcome (fs : FileSystem) (number length : Nat) (position : Option Nat) :
    ReadOutcome fs number length position (fs.read number length position) := by
  unfold read
  split
  · next hnumber => exact .stream hnumber
  split
  · next e hunreadable => exact .refused e hunreadable
  next d hopened =>
  dsimp only
  split
  · next e habsent => exact .missing d e hopened habsent
  · next data times hfile => exact .found d data times _ _ hopened hfile rfl rfl

/-- How bytes were written: to one of the two buffers, or into a file through a descriptor that is
    open for it, at the cursor, at the given position or at the end of the file. -/
inductive Written (fs : FileSystem) (number : Nat) (bytes : ByteArray) (position : Option Nat) :
    FileSystem → Prop where
  | stdout (is : number = 1) :
      Written fs number bytes position { fs with stdout := fs.stdout ++ bytes }
  | stderr (is : number = 2) :
      Written fs number bytes position { fs with stderr := fs.stderr ++ bytes }
  | file (d : Descriptor) (data : ByteArray) (times : Times) (offset : Nat)
      (least : firstDescriptor ≤ number) (opened : fs.descriptors.get? number = some d)
      (writable : d.mode.writable = true) (there : fs.file d.path = .ok (data, times))
      (starts : offset = if d.mode.append then data.size else position.getD d.cursor)
      (bounded : offset + bytes.size ≤ maxFileSize) :
      Written fs number bytes position
        ((fs.setFile d.path (overlay data offset bytes)
          { times with modified := fs.clock, changed := fs.clock }).setCursor number
            (offset + bytes.size))

theorem written_of_write {number n : Nat} {bytes : ByteArray} {position : Option Nat}
    (hok : fs.write number bytes position = .ok (n, fs')) :
    n = bytes.size ∧ Written fs number bytes position fs' := by
  simp only [write, throw_bind, check_eq_ok_iff] at hok
  obtain ⟨hzero, hok⟩ := hok
  split at hok
  · next hout =>
    cases hok
    exact ⟨rfl, .stdout hout⟩
  next hout =>
  split at hok
  · next herr =>
    cases hok
    exact ⟨rfl, .stderr herr⟩
  next herr =>
  simp only [bind_eq_ok_iff, check_eq_ok_iff, pure_eq_ok_iff, Prod.mk.injEq, descriptor_eq_ok_iff,
    boundedEnd_eq_ok_iff, Bool.not_eq_true', Bool.not_eq_false] at hok
  obtain ⟨d, hd, hmode, ⟨data, times⟩, hfile, finish, ⟨rfl, hbound⟩, rfl, rfl⟩ := hok
  have hleast : firstDescriptor ≤ number := by
    rw [firstDescriptor]
    omega
  exact ⟨rfl, .file d data times _ hleast hd hmode hfile rfl hbound⟩

theorem truncateDescriptor_eq_ok_iff {number length : Nat} :
    fs.truncateDescriptor number length = .ok fs' ↔ ∃ d data times,
      fs.descriptors.get? number = some d ∧ d.mode.writable = true ∧ length ≤ maxFileSize ∧
        fs.file d.path = .ok (data, times) ∧
        fs' = fs.setFile d.path (resize data length) { times with modified := fs.clock } := by
  simp only [truncateDescriptor, throw_bind, bind_eq_ok_iff, check_eq_ok_iff, pure_eq_ok_iff,
    descriptor_eq_ok_iff, boundedEnd_eq_ok_iff, Nat.add_zero, Bool.not_eq_true', Bool.not_eq_false,
    Prod.exists]
  constructor
  · rintro ⟨d, hd, hmode, finish, ⟨rfl, hbound⟩, data, times, hfile, rfl⟩
    exact ⟨d, data, times, hd, hmode, hbound, hfile, rfl⟩
  · rintro ⟨d, data, times, hd, hmode, hbound, hfile, rfl⟩
    exact ⟨d, hd, hmode, length, ⟨rfl, hbound⟩, data, times, hfile, rfl⟩

/-! ## Nodes -/

theorem chdir_eq_ok_iff : fs.chdir text = .ok fs' ↔
    ∃ p, fs.resolve text = .ok p ∧ fs.isDir p = true ∧ fs' = { fs with cwd := p } := by
  simp only [chdir, bind_eq_ok_iff]
  refine exists_congr fun p => and_congr_right fun _ => ?_
  split
  · next hdir => rw [Except.ok.injEq, hdir, eq_comm, eq_self, true_and]
  · next hdir => simp [hdir]

/-- A directory is removed that is empty and is not the root. -/
theorem removeDir_eq_ok_iff : fs.removeDir text = .ok fs' ↔ ∃ p node,
    fs.resolve text = .ok p ∧ p.isRoot = false ∧ fs.nodes.get? p.dirKey = some node ∧
      node.names = [] ∧ fs' = (fs.remove p.dirKey).unlinkName p := by
  simp only [removeDir, throw_bind, bind_eq_ok_iff, check_eq_ok_iff, Bool.not_eq_true]
  refine exists_congr fun p => ?_
  split
  · next name names times hget => simp [hget, Node.names, throw_ne_ok]
  · next node hempty hget =>
    have hnames : node.names = [] := by
      cases node with
      | file data times => rfl
      | dir names times =>
        cases names with
        | nil => rfl
        | cons name names => exact (hempty name names times rfl).elim
    simp [hget, hnames, pure_eq_ok_iff, @eq_comm _ fs']
  · next hget => simp [hget, throw_ne_ok]

theorem unlink_eq_ok_iff : fs.unlink text = .ok fs' ↔ ∃ p, fs.resolve text = .ok p ∧
    fs.isFile p = true ∧ fs' = (fs.remove p.fileKey).unlinkName p := by
  simp only [unlink, throw_bind, bind_eq_ok_iff, check_eq_ok_iff, pure_eq_ok_iff,
    Bool.not_eq_true', Bool.not_eq_false, @eq_comm _ fs']

theorem setTimes_eq_ok_iff {accessed modified : Time} :
    fs.setTimes text accessed modified = .ok fs' ↔ ∃ p key, fs.resolve text = .ok p ∧
      fs.keyOf? p = some key ∧ fs' = { fs with nodes := fs.nodes.update key (fun node =>
        node.withTimes { node.times with accessed := accessed, modified := modified }) } := by
  simp only [setTimes, bind_eq_ok_iff]
  refine exists_congr fun p => ?_
  split
  · next hkey => simp [hkey, throw_ne_ok]
  · next key hkey => simp [hkey, pure_eq_ok_iff, @eq_comm _ fs']

theorem truncate_eq_ok_iff {length : Nat} : fs.truncate text length = .ok fs' ↔ ∃ p data times,
    fs.resolve text = .ok p ∧ length ≤ maxFileSize ∧ fs.file p = .ok (data, times) ∧
      fs' = fs.setFile p (resize data length) { times with modified := fs.clock } := by
  simp only [truncate, bind_eq_ok_iff, pure_eq_ok_iff, boundedEnd_eq_ok_iff, Nat.add_zero,
    Prod.exists]
  constructor
  · rintro ⟨finish, ⟨rfl, hbound⟩, p, hp, data, times, hfile, rfl⟩
    exact ⟨p, data, times, hp, hbound, hfile, rfl⟩
  · rintro ⟨p, data, times, hp, hbound, hfile, rfl⟩
    exact ⟨length, ⟨rfl, hbound⟩, p, hp, data, times, hfile, rfl⟩

theorem makeDirHere_eq_ok_iff : fs.makeDirHere p = .ok fs' ↔
    fs.keyOf? p = none ∧ fs.requireParent p = .ok () ∧ fs' = fs.putDir p := by
  simp only [makeDirHere, throw_bind, bind_eq_ok_iff, check_eq_ok_iff, pure_eq_ok_iff,
    Bool.not_eq_true, Option.isSome_eq_false_iff, Option.isNone_iff_eq_none, @eq_comm _ fs']
  refine and_congr_right fun _ => ⟨?_, fun h => ⟨(), h⟩⟩
  rintro ⟨_, h⟩
  exact h

/-- Making a directory leaves everything, or makes what is missing down to it, or it alone. -/
theorem makeDir_left (fs : FileSystem) (text : String) (recursive : Bool) :
    (fs.makeDir text recursive).2 = fs ∨ ∃ p, fs.resolve text = .ok p ∧
      ((fs.makeDir text recursive).2 = (fs.makeDirs p).2 ∨
        (fs.makeDir text recursive).2 = fs.putDir p) := by
  unfold makeDir
  split
  · exact Or.inl rfl
  next p hp =>
  split
  · exact Or.inr ⟨p, hp, Or.inl rfl⟩
  · split
    · exact Or.inl rfl
    · next hmade => exact Or.inr ⟨p, hp, Or.inr (makeDirHere_eq_ok_iff.1 hmade).2.2⟩

/-- Making the directories above a path is making the one that holds it, where there is one. -/
theorem makeParents_left (fs : FileSystem) (p : Path) :
    (fs.makeParents p).2 = fs ∨
      ∃ parent, p.parent? = some parent ∧ (fs.makeParents p).2 = (fs.makeDirs parent).2 := by
  unfold makeParents
  split
  · exact Or.inl rfl
  · next parent hparent => exact Or.inr ⟨parent, hparent, rfl⟩

/-- A file is put once the directories above it are made. -/
theorem placeFile_left (fs : FileSystem) (p : Path) (data : ByteArray) :
    (fs.placeFile p data).2 = (fs.makeParents p).2 ∨
      (fs.placeFile p data).2 = (fs.makeParents p).2.putFile p data := by
  unfold placeFile
  rcases fs.makeParents p with ⟨e | _, fs₁⟩
  · exact Or.inl rfl
  · exact Or.inr rfl

theorem writeFile_left (fs : FileSystem) (text : String) (data : ByteArray) :
    (fs.writeFile text data).2 = fs ∨ ∃ p, fs.resolve text = .ok p ∧ fs.isDir p = false ∧
      (fs.writeFile text data).2 = (fs.placeFile p data).2 := by
  unfold writeFile
  split
  · exact Or.inl rfl
  next p hp =>
  split
  · exact Or.inl rfl
  · next hdir => exact Or.inr ⟨p, hp, Bool.not_eq_true _ ▸ hdir, rfl⟩

theorem rename_left (fs : FileSystem) (source target : String) :
    (fs.rename source target).2 = fs ∨ ∃ move, fs.planMove source target = .ok move ∧
      (fs.rename source target).2 = (fs.carryOut move).2 := by
  unfold rename
  split
  · exact Or.inl rfl
  · next move hplan => exact Or.inr ⟨move, hplan, rfl⟩

/-! ## Fetching, looking, reading and opening -/

/-- What is fetched is put where nothing was, if the mount covers the path and has the asset. -/
theorem populate_left (mount : Option (Asset.Mount World)) (fs : FileSystem) (world : World)
    (p : Path) :
    (populate mount fs world p).2.1 = fs ∨
      ∃ m bytes, mount = some m ∧ fs.find? p = none ∧ p.trailing = false ∧ m.covers p = true ∧
        (m.fetch world p.toString).1 = .ok bytes ∧
        (populate mount fs world p).2.1 = (fs.placeFile p bytes).2 := by
  unfold populate
  split
  · exact Or.inl rfl
  next hfree =>
  cases mount with
  | none => exact Or.inl rfl
  | some m =>
    dsimp only
    split
    · exact Or.inl rfl
    next hasset =>
    rw [Bool.or_eq_true, not_or, Bool.not_eq_true, Bool.not_eq_true, Bool.not_eq_false'] at hasset
    split
    · next bytes world' hfetch =>
      exact Or.inr ⟨m, bytes, rfl, Option.not_isSome_iff_eq_none.1 hfree, hasset.1, hasset.2,
        by rw [hfetch], rfl⟩
    · exact Or.inl rfl
    · exact Or.inl rfl

/-- Nothing is fetched where something is. -/
theorem populate_of_isSome (hfound : (fs.find? p).isSome) (mount : Option (Asset.Mount World))
    (world : World) : populate mount fs world p = (.ok (), fs, world) := by
  unfold populate
  rw [if_pos hfound]

/-- Nothing is fetched to a path that is spelled as a directory or that no mount covers. -/
theorem populate_of_uncovered {mount : Option (Asset.Mount World)}
    (huncovered : ∀ m, mount = some m → p.trailing = true ∨ m.covers p = false) (fs : FileSystem)
    (world : World) : populate mount fs world p = (.ok (), fs, world) := by
  unfold populate
  split
  · rfl
  cases mount with
  | none => rfl
  | some m =>
    refine if_pos ?_
    rw [Bool.or_eq_true, Bool.not_eq_true']
    exact huncovered m rfl

/-- An operation goes on with what is left once the path is populated. -/
theorem withFetched_eq {mount : Option (Asset.Mount World)} {world world₁ : World}
    {fs₁ : FileSystem} (hp : fs.resolve text = .ok p)
    (hpopulate : populate mount fs world p = (.ok (), fs₁, world₁))
    (act : FileSystem → Path → Except Error α × FileSystem) :
    withFetched mount fs world text act = ((act fs₁ p).1, (act fs₁ p).2, world₁) := by
  rw [withFetched, hp]
  dsimp only
  rw [hpopulate]

/-- A path is fetched first, and then acted on unless that fails. -/
theorem withFetched_left (mount : Option (Asset.Mount World)) (fs : FileSystem) (world : World)
    (text : String) (act : FileSystem → Path → Except Error α × FileSystem) :
    (withFetched mount fs world text act).2.1 = fs ∨ ∃ p, fs.resolve text = .ok p ∧
      ((withFetched mount fs world text act).2.1 = (populate mount fs world p).2.1 ∨
        (withFetched mount fs world text act).2.1 = (act (populate mount fs world p).2.1 p).2) := by
  unfold withFetched
  split
  · exact Or.inl rfl
  next p hp =>
  refine Or.inr ⟨p, hp, ?_⟩
  rcases populate mount fs world p with ⟨e | _, fs₁, world₁⟩
  · exact Or.inl rfl
  · exact Or.inr rfl

@[simp] theorem statLocal_left (fs : FileSystem) (p : Path) : (fs.statLocal p).2 = fs := by
  unfold statLocal
  split <;> rfl

/-- Reading a file leaves a trace in its times. -/
theorem readLocal_left (fs : FileSystem) (p : Path) :
    (fs.readLocal p).2 = fs ∨ ∃ data times, fs.file p = .ok (data, times) ∧
      (fs.readLocal p).2 = fs.setFile p data { times with accessed := fs.clock } := by
  unfold readLocal
  split
  · exact Or.inl rfl
  · next data times hfile => exact Or.inr ⟨data, times, hfile, rfl⟩

/-- Creating what is to be opened changes nothing, or puts an empty file where nothing was. -/
theorem createFor_eq_ok {mode : OpenMode} (hok : fs.createFor p mode = .ok fs') :
    fs' = fs ∨ mode.create = true ∧ fs.find? p = none ∧ p.trailing = false ∧
      fs.requireParent p = .ok () ∧ fs' = fs.putFile p .empty := by
  unfold createFor at hok
  split at hok
  · exact Or.inl (Except.ok.inj hok).symm
  next hcreate =>
  split at hok
  · split at hok
    · cases hok
    · exact Or.inl (Except.ok.inj hok).symm
  next hfree =>
  split at hok
  · exact Or.inl (Except.ok.inj hok).symm
  next htrailing =>
  cases hparent : fs.requireParent p with
  | error e =>
    rw [hparent] at hok
    cases hok
  | ok =>
    rw [hparent] at hok
    rw [Bool.not_eq_true', Bool.not_eq_false] at hcreate
    exact Or.inr ⟨hcreate, Option.not_isSome_iff_eq_none.1 hfree, Bool.not_eq_true _ ▸ htrailing,
      rfl, (Except.ok.inj hok).symm⟩

/-- What opening a path comes to, once what is fetched is there. The file may have been created
    when opening is refused; a directory is opened for reading alone; a file is emptied where the
    mode asks for it. -/
inductive OpenOutcome (mode : OpenMode) (fs : FileSystem) (p : Path) :
    Except Error Nat × FileSystem → Prop where
  | uncreated (e : Error) (refuses : fs.createFor p mode = .error e) :
      OpenOutcome mode fs p (.error e, fs)
  | refused (e : Error) (fs₁ : FileSystem) (created : fs.createFor p mode = .ok fs₁) :
      OpenOutcome mode fs p (.error e, fs₁)
  | dir (fs₁ : FileSystem) (created : fs.createFor p mode = .ok fs₁)
      (unwritable : mode.writable = false) (keeps : mode.truncate = false) :
      OpenOutcome mode fs p (fs₁.addDescriptor ⟨p, mode, 0, true⟩)
  | emptied (fs₁ : FileSystem) (data : ByteArray) (times : Times)
      (created : fs.createFor p mode = .ok fs₁) (there : fs₁.file p = .ok (data, times))
      (truncates : mode.truncate = true) :
      OpenOutcome mode fs p
        ((fs₁.setFile p .empty { times with modified := fs₁.clock }).addDescriptor
          ⟨p, mode, 0, false⟩)
  | file (fs₁ : FileSystem) (data : ByteArray) (times : Times)
      (created : fs.createFor p mode = .ok fs₁) (there : fs₁.file p = .ok (data, times))
      (keeps : mode.truncate = false) :
      OpenOutcome mode fs p
        (fs₁.addDescriptor ⟨p, mode, if mode.append then data.size else 0, false⟩)

theorem openLocal_outcome (mode : OpenMode) (fs : FileSystem) (p : Path) :
    OpenOutcome mode fs p (openLocal mode fs p) := by
  unfold openLocal
  split
  · next e hrefused => exact .uncreated e hrefused
  next fs₁ hcreated =>
  split
  · exact .refused _ fs₁ hcreated
  · split
    · exact .refused _ fs₁ hcreated
    · next hmode =>
      rw [Bool.or_eq_true, not_or, Bool.not_eq_true, Bool.not_eq_true] at hmode
      exact .dir fs₁ hcreated hmode.1 hmode.2
  · unfold openFile
    split
    · exact .refused _ fs₁ hcreated
    · next data times hfile =>
      cases htruncate : mode.truncate with
      | true =>
        have hcursor : (if mode.append then ByteArray.empty.size else 0) = 0 := by
          split <;> rfl
        simp only [if_true, hcursor]
        exact .emptied fs₁ data times hcreated hfile htruncate
      | false => exact .file fs₁ data times hcreated hfile htruncate

/-- A request that is granted or changes nothing leaves what was there, or what it yields. -/
theorem settle_left (fs : FileSystem) (world : World) (result : Except Error FileSystem) :
    (settle fs world result).2.1 = fs ∨
      ∃ fs', result = .ok fs' ∧ (settle fs world result).2.1 = fs' := by
  cases result with
  | error e => exact Or.inl rfl
  | ok fs' => exact Or.inr ⟨fs', rfl, rfl⟩

/-! ## Putting nodes -/

/-- A relation between what was and what is left that tolerates putting nodes: it holds where nothing
    is done, and of one change after the other, of every directory that is put and of every file that
    is allowed. Then it holds of all that puts more than one node. -/
structure Tolerant (allowed : Path → ByteArray → Prop) (R : FileSystem → FileSystem → Prop) :
    Prop where
  refl : ∀ fs, R fs fs
  trans : ∀ {fs fs₁ fs₂ : FileSystem}, R fs fs₁ → R fs₁ fs₂ → R fs fs₂
  putDir : ∀ fs p, R fs (fs.putDir p)
  putFile : ∀ fs p data, allowed p data → R fs (fs.putFile p data)

namespace Tolerant

variable {allowed : Path → ByteArray → Prop} {R : FileSystem → FileSystem → Prop}

theorem makeEach (h : Tolerant allowed R) (dirs : List Path) (fs : FileSystem) :
    R fs (FileSystem.makeEach dirs fs).2 := by
  induction dirs generalizing fs with
  | nil => exact h.refl fs
  | cons dir dirs ih =>
    rw [FileSystem.makeEach]
    split
    · exact ih fs
    · split
      · exact h.refl fs
      · exact h.trans (h.putDir fs dir) (ih _)

theorem makeParents (h : Tolerant allowed R) (fs : FileSystem) (p : Path) :
    R fs (fs.makeParents p).2 := by
  rcases makeParents_left fs p with hleft | ⟨parent, -, hleft⟩
  · rw [hleft]
    exact h.refl fs
  · rw [hleft]
    exact h.makeEach _ fs

theorem placeFile (h : Tolerant allowed R) (fs : FileSystem) {p : Path} {data : ByteArray}
    (hallowed : allowed p data) : R fs (fs.placeFile p data).2 := by
  have hparents := h.makeParents fs p
  rcases placeFile_left fs p data with hleft | hleft
  · rwa [hleft]
  · rw [hleft]
    exact h.trans hparents (h.putFile _ p data hallowed)

/-- What is fetched is allowed if it is whenever it has to be fetched. -/
theorem populate (h : Tolerant allowed R) {mount : Option (Asset.Mount World)} {fs : FileSystem}
    {world : World} {p : Path}
    (hallowed : ∀ m bytes, mount = some m → fs.find? p = none → p.trailing = false →
      m.covers p = true → (m.fetch world p.toString).1 = .ok bytes → allowed p bytes) :
    R fs (FileSystem.populate mount fs world p).2.1 := by
  rcases populate_left mount fs world p with
    hleft | ⟨m, bytes, hm, hfree, hspelled, hcovers, hfetch, hleft⟩
  · rw [hleft]
    exact h.refl fs
  · rw [hleft]
    exact h.placeFile fs (hallowed m bytes hm hfree hspelled hcovers hfetch)

theorem withFetched (h : Tolerant allowed R) {mount : Option (Asset.Mount World)}
    {fs : FileSystem} {world : World} {text : String}
    {act : FileSystem → Path → Except Error α × FileSystem}
    (hallowed : ∀ p m bytes, fs.resolve text = .ok p → mount = some m → fs.find? p = none →
      p.trailing = false → m.covers p = true → (m.fetch world p.toString).1 = .ok bytes →
      allowed p bytes)
    (hact : ∀ fs₁ p, R fs₁ (act fs₁ p).2) :
    R fs (FileSystem.withFetched mount fs world text act).2.1 := by
  rcases withFetched_left mount fs world text act with hleft | ⟨p, hp, hleft⟩
  · rw [hleft]
    exact h.refl fs
  have hpopulate := h.populate fun m bytes => hallowed p m bytes hp
  rcases hleft with hleft | hleft
  · rwa [hleft]
  · rw [hleft]
    exact h.trans hpopulate (hact _ p)

theorem makeDir (h : Tolerant allowed R) (fs : FileSystem) (text : String) (recursive : Bool) :
    R fs (fs.makeDir text recursive).2 := by
  rcases makeDir_left fs text recursive with hleft | ⟨p, -, hleft | hleft⟩
  · rw [hleft]
    exact h.refl fs
  · rw [hleft]
    exact h.makeEach _ fs
  · rw [hleft]
    exact h.putDir fs p

theorem writeFile (h : Tolerant allowed R) {fs : FileSystem} {text : String} {data : ByteArray}
    (hallowed : ∀ p, fs.resolve text = .ok p → allowed p data) :
    R fs (fs.writeFile text data).2 := by
  rcases writeFile_left fs text data with hleft | ⟨p, hp, -, hleft⟩
  · rw [hleft]
    exact h.refl fs
  · rw [hleft]
    exact h.placeFile fs (hallowed p hp)

theorem createFor (h : Tolerant allowed R) {fs fs' : FileSystem} {p : Path} {mode : OpenMode}
    (hallowed : mode.create = true → fs.find? p = none → p.trailing = false → allowed p .empty)
    (hok : fs.createFor p mode = .ok fs') : R fs fs' := by
  rcases createFor_eq_ok hok with rfl | ⟨hcreate, hfree, hspelled, -, rfl⟩
  · exact h.refl _
  · exact h.putFile fs p .empty (hallowed hcreate hfree hspelled)

/-- Opening puts a file at most, empties it, and enters a descriptor. -/
theorem openLocal (h : Tolerant allowed R) {mode : OpenMode} {fs : FileSystem} {p : Path}
    (hallowed : mode.create = true → fs.find? p = none → p.trailing = false → allowed p .empty)
    (hempty : ∀ fs₁ data times times', fs₁.file p = .ok (data, times) → mode.truncate = true →
      R fs₁ (fs₁.setFile p .empty times'))
    (hadd : ∀ fs₁ d, R fs₁ (addDescriptor fs₁ d).2) :
    R fs (FileSystem.openLocal mode fs p).2 := by
  have houtcome := openLocal_outcome mode fs p
  generalize FileSystem.openLocal mode fs p = outcome at houtcome ⊢
  cases houtcome with
  | uncreated => exact h.refl fs
  | refused e fs₁ hcreated => exact h.createFor hallowed hcreated
  | dir fs₁ hcreated => exact h.trans (h.createFor hallowed hcreated) (hadd fs₁ _)
  | emptied fs₁ data times hcreated hfile htruncate =>
    have hset := hempty fs₁ data times { times with modified := fs₁.clock } hfile htruncate
    exact h.trans (h.createFor hallowed hcreated) (h.trans hset (hadd _ _))
  | file fs₁ data times hcreated =>
    exact h.trans (h.createFor hallowed hcreated) (hadd fs₁ _)

/-- What is refused changes nothing. -/
theorem settle (h : Tolerant allowed R) {fs : FileSystem} {world : World}
    {result : Except Error FileSystem} (hok : ∀ fs', result = .ok fs' → R fs fs') :
    R fs (FileSystem.settle fs world result).2.1 := by
  rcases settle_left fs world result with hleft | ⟨fs', hresult, hleft⟩
  · rw [hleft]
    exact h.refl fs
  · rw [hleft]
    exact hok fs' hresult

end Tolerant

end Workbench.FileSystem
