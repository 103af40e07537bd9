import Workbench.Proofs.Fetching

set_option autoImplicit false

/-! # What a written file touches

Putting a file at a path changes the nodes under the key of that file and under those of the
directories above it, whatever the file system was before and whether or not it succeeds. Every
other key keeps its node, and so does what is looked for under it. -/

namespace Workbench.FileSystem

variable {World : Type} {fs : FileSystem} {p : Path} {key : String}

/-- A key is neither that of the file at a path nor that of a directory above it. -/
structure Beside (p : Path) (key : String) : Prop where
  file : key ≠ p.fileKey
  above : ∀ d : Path, d.parts <+: p.parts → d.parts ≠ p.parts → key ≠ d.dirKey

theorem parent?_above {parent : Path} (h : p.parent? = some parent) :
    parent.parts <+: p.parts ∧ parent.parts ≠ p.parts := by
  unfold Path.parent? at h
  split at h
  · cases h
  next hroot =>
  cases h
  have hlength : 0 < p.parts.length := List.length_pos_iff.2 (mt (Path.isRoot_iff p).2 hroot)
  exact ⟨List.take_prefix _ _, above_parts_ne (by omega)⟩

/-! ## Putting one node -/

theorem get?_link (h : ∀ parent, p.parent? = some parent → key ≠ parent.dirKey) :
    (fs.link p).nodes.get? key = fs.nodes.get? key := by
  unfold link
  split
  · next parent name hparent hname =>
    show (fs.nodes.update parent.dirKey _).get? key = _
    rw [Dictionary.get?_update, if_neg (h parent hparent).symm]
  · rfl

theorem get?_putFile (h : Beside p key) (data : ByteArray) :
    (fs.putFile p data).nodes.get? key = fs.nodes.get? key := by
  rw [putFile, get?_link fun parent hparent =>
    h.above parent (parent?_above hparent).1 (parent?_above hparent).2]
  show (fs.nodes.put p.fileKey _).get? key = _
  rw [Dictionary.get?_put, if_neg h.file.symm]

theorem get?_putDir (h : ∀ d : Path, d.parts <+: p.parts → key ≠ d.dirKey) :
    (fs.putDir p).nodes.get? key = fs.nodes.get? key := by
  rw [putDir, get?_link fun parent hparent => h parent (parent?_above hparent).1]
  show (fs.nodes.put p.dirKey _).get? key = _
  rw [Dictionary.get?_put, if_neg (h p List.prefix_rfl).symm]

/-! ## Putting a file with the directories above it -/

theorem get?_makeEach {dirs : List Path}
    (h : ∀ dir ∈ dirs, ∀ d : Path, d.parts <+: dir.parts → key ≠ d.dirKey) :
    (makeEach dirs fs).2.nodes.get? key = fs.nodes.get? key := by
  induction dirs generalizing fs with
  | nil => rfl
  | cons dir dirs ih =>
    have hrest := fun other hother => h other (List.mem_cons_of_mem dir hother)
    rw [makeEach]
    split
    · exact ih hrest
    split
    · rfl
    · rw [ih hrest, get?_putDir (h dir List.mem_cons_self)]

theorem get?_makeDirs (h : ∀ d : Path, d.parts <+: p.parts → key ≠ d.dirKey) :
    (fs.makeDirs p).2.nodes.get? key = fs.nodes.get? key := by
  refine get?_makeEach fun dir hdir d hd => h d (hd.trans ?_)
  rcases List.mem_append.1 hdir with hdir | hdir
  · obtain ⟨n, -, rfl⟩ := List.mem_map.1 hdir
    exact List.take_prefix n p.parts
  · rw [List.mem_singleton.1 hdir]

theorem get?_placeFile (h : Beside p key) (data : ByteArray) :
    (fs.placeFile p data).2.nodes.get? key = fs.nodes.get? key := by
  have hparents : (fs.makeParents p).2.nodes.get? key = fs.nodes.get? key := by
    rcases makeParents_left fs p with hleft | ⟨parent, hparent, hleft⟩
    · rw [hleft]
    · rw [hleft]
      obtain ⟨hpre, hne⟩ := parent?_above hparent
      refine get?_makeDirs fun d hd => h.above d (hd.trans hpre) fun heq => hne ?_
      exact hpre.eq_of_length_le (heq ▸ hd.length_le)
  rcases placeFile_left fs p data with hleft | hleft
  · rw [hleft, hparents]
  · rw [hleft, get?_putFile h data, hparents]

theorem get?_writeFile {text : String} (h : ∀ p, fs.resolve text = .ok p → Beside p key)
    (data : ByteArray) : (fs.writeFile text data).2.nodes.get? key = fs.nodes.get? key := by
  rcases writeFile_left fs text data with hleft | ⟨p, hp, -, hleft⟩
  · rw [hleft]
  · rw [hleft, get?_placeFile (h p hp) data]

/-! ## Reading a file -/

theorem get?_populate (h : Beside p key) (mount : Option (Asset.Mount World)) (fs : FileSystem)
    (world : World) : (populate mount fs world p).2.1.nodes.get? key = fs.nodes.get? key := by
  rcases populate_left mount fs world p with hleft | ⟨m, bytes, -, -, -, -, -, hleft⟩
  · rw [hleft]
  · rw [hleft, get?_placeFile h bytes]

theorem get?_readLocal (h : Beside p key) :
    (fs.readLocal p).2.nodes.get? key = fs.nodes.get? key := by
  rcases readLocal_left fs p with hleft | ⟨data, times, -, hleft⟩
  · rw [hleft]
  · rw [hleft, setFile, put, Dictionary.get?_put, if_neg h.file.symm]

theorem get?_readAll {text : String} (h : ∀ p, fs.resolve text = .ok p → Beside p key)
    (mount : Option (Asset.Mount World)) (world : World) :
    (fs.readAll mount world text).2.1.nodes.get? key = fs.nodes.get? key := by
  rcases withFetched_left mount fs world text readLocal with hleft | ⟨p, hp, hleft | hleft⟩
  · rw [readAll, hleft]
  · rw [readAll, hleft, get?_populate (h p hp)]
  · rw [readAll, hleft, get?_readLocal (h p hp), get?_populate (h p hp)]

/-- Where there are bytes of a file there is a file. -/
theorem isFile_of_file {contents : ByteArray × Times} (h : fs.file p = .ok contents) :
    fs.isFile p = true := by
  unfold file at h
  unfold isFile
  split at h
  · next heq =>
    rw [heq]
    rfl
  · cases h
  · cases h

/-- What no mount covers is read from the nodes as they are. -/
theorem file_of_readAll {mount : Option (Asset.Mount World)} {world world' : World} {text : String}
    {bytes : ByteArray} {fs' : FileSystem} (hp : fs.resolve text = .ok p)
    (hcovers : ∀ m ∈ mount, m.covers p = false)
    (h : fs.readAll mount world text = (.ok bytes, fs', world')) :
    ∃ times, fs.file p = .ok (bytes, times) := by
  have hpopulate := populate_of_uncovered (fun m hm => Or.inr (hcovers m hm)) fs world
  simp only [readAll, withFetched_eq hp hpopulate, readLocal] at h
  split at h
  · exact absurd ((Prod.mk.inj h).1) (by simp)
  · next data times hfile =>
    cases (Prod.mk.inj h).1
    exact ⟨times, hfile⟩

end Workbench.FileSystem
