import Workbench.Proofs.Fetching

set_option autoImplicit false

/-! # The invariant of the tree

The file systems that operations lead to, however many they are and whether granted or refused, hold
a tree: the table of nodes and the names in the directories say the same. -/

namespace Workbench.FileSystem

variable {v : View} {fs : FileSystem}

/-- The file systems that come of a new one. The user may set the clock between operations, and what
    is mounted may answer differently each time. -/
inductive Reachable : FileSystem → Prop where
  | new (clock : Time) : Reachable (.empty clock)
  | tick {fs : FileSystem} (clock : Time) : Reachable fs → Reachable { fs with clock := clock }
  | step {fs : FileSystem} {World : Type} (mount : Option (Asset.Mount World)) (world : World)
      (op : Operation) : Reachable fs → Reachable (fs.perform mount world op).2.1

/-- The table of nodes and the names in the directories agree. -/
structure WellFormed (fs : FileSystem) : Prop where
  root : ∃ names times, fs.nodes.get? "/" = some (.dir names times)
  distinct : fs.nodes.keys.Nodup
  /-- Every key is the written form of a path, with a slash at its end for directories alone. -/
  normal : ∀ key node, fs.nodes.get? key = some node →
    ∃ p, Path.parse key = .ok p ∧ p.trailing = node.isDir ∧ p.key node.isDir = key ∧
      (key.toList.getLast? = some '/' ↔ node.isDir = true)
  /-- No path is a file and a directory at once. -/
  exclusive : ∀ p, ¬ (fs.isFile p = true ∧ fs.isDir p = true)
  /-- Every node but the root has its name in the directory above. -/
  held : ∀ (p : Path) node, p.parts ≠ [] → fs.nodes.get? (p.key node.isDir) = some node →
    ∃ parent name names times, p.parent? = some parent ∧ p.fileName? = some name ∧
      fs.nodes.get? parent.dirKey = some (.dir names times) ∧ name ∈ names
  /-- Above every node there are directories up to the root. -/
  rooted : ∀ (p : Path) node, fs.nodes.get? (p.key node.isDir) = some node →
    ∀ n < p.parts.length, fs.isDir (p.above n) = true
  /-- Behind every name in a directory there is a file or a directory, and not both. -/
  backed : ∀ (d : Path) names times, fs.nodes.get? d.dirKey = some (.dir names times) →
    ∀ name ∈ names, ∃ p : Path, p.parts = d.parts ++ [name] ∧ fs.isDir p = !fs.isFile p
  /-- A listing has every name below a directory once, and no other. -/
  listing : ∀ text names, fs.readDir text = .ok names → names.Nodup ∧
    ∃ d, fs.resolve text = .ok d ∧ ∀ name, name ∈ names ↔
      ∃ p : Path, p.parts = d.parts ++ [name] ∧ (fs.isFile p = true ∨ fs.isDir p = true)

/-! ## Trees are well formed -/

namespace Shows

theorem parse_key (h : fs.Shows v) {key : String} {node : Node}
    (hget : fs.nodes.get? key = some node) :
    ∃ p, Path.parse key = .ok p ∧ p.trailing = node.isDir ∧ p.key node.isDir = key ∧
      (key.toList.getLast? = some '/' ↔ node.isDir = true) := by
  obtain ⟨p, rfl, hv⟩ := (h.table.found key node).1 hget
  have hp := h.table.parts_ne_nil hv
  obtain ⟨q, hq, hparts, htrailing⟩ : ∃ q, Path.parse (p.key node.isDir) = .ok q ∧
      q.parts = p.parts ∧ q.trailing = node.isDir := by
    cases hdir : node.isDir with
    | true => exact Path.parse_dirKey p
    | false => exact Path.parse_fileKey (hp hdir)
  exact ⟨q, hq, htrailing, Path.key_congr hparts _, Path.getLast?_key hp⟩

/-- Something is at a path exactly if it is a file or a directory, and then not both. -/
theorem isDir_eq_not_isFile (h : fs.Shows v) {p : Path} (hsome : (v p.parts).isSome) :
    fs.isDir p = !fs.isFile p := by
  rw [h.table.isDir_eq, h.table.isFile_eq]
  obtain ⟨node, hv⟩ := Option.isSome_iff_exists.1 hsome
  rw [hv]
  cases node <;> rfl

theorem isFile_or_isDir (h : fs.Shows v) (p : Path) :
    fs.isFile p = true ∨ fs.isDir p = true ↔ (v p.parts).isSome := by
  rw [h.table.isDir_eq, h.table.isFile_eq]
  cases v p.parts with
  | none => simp
  | some node => cases node <;> simp [Node.isFile, Node.isDir]

/-- A directory is at a place that is one. -/
theorem exists_dir (h : fs.Shows v) {p : Path} (hdir : fs.isDir p = true) :
    ∃ names times, v p.parts = some (.dir names times) := by
  rw [h.table.isDir_eq, Option.any_eq_true] at hdir
  obtain ⟨node, hv, hisDir⟩ := hdir
  cases node with
  | file => cases hisDir
  | dir names times => exact ⟨names, times, hv⟩

theorem exists_file (h : fs.Shows v) {p : Path} (hfile : fs.isFile p = true) :
    ∃ data times, v p.parts = some (.file data times) := by
  rw [h.table.isFile_eq, Option.any_eq_true] at hfile
  obtain ⟨node, hv, hisFile⟩ := hfile
  cases node with
  | file data times => exact ⟨data, times, hv⟩
  | dir => cases hisFile

/-- The directory under a key is what the tree shows there. -/
theorem names_eq (h : fs.Shows v) {d : Path} {names : List String} {times : Times}
    (hget : fs.nodes.get? d.dirKey = some (.dir names times)) : v.names d.parts = names := by
  rw [h.table.get?_dirKey] at hget
  exact View.names_of_eq_some (Option.filter_eq_some_iff.1 hget).1

/-- A name is in a directory exactly if something is at its path. -/
theorem mem_names_iff (h : fs.Shows v) (d : Path) (name : String) :
    name ∈ v.names d.parts ↔ ∃ p : Path, p.parts = d.parts ++ [name] ∧ (v p.parts).isSome := by
  rw [← h.tree.listed]
  constructor
  · intro hsome
    have hproper := h.table.proper _ hsome
    exact ⟨⟨d.parts ++ [name], false, hproper, by simp⟩, rfl, hsome⟩
  · rintro ⟨p, hparts, hsome⟩
    rwa [← hparts]

theorem isWellFormed (h : fs.Shows v) : WellFormed fs where
  root := by
    obtain ⟨node, hv, hdir⟩ := h.table.root
    have hget := (h.table.found _ node).2 ⟨.root, rfl, hv⟩
    rw [hdir] at hget
    cases node with
    | file => cases hdir
    | dir names times => exact ⟨names, times, hget⟩
  distinct := h.table.distinct
  normal _ _ := h.parse_key
  exclusive p := by
    rintro ⟨hfile, hdir⟩
    have hsome := (h.isFile_or_isDir p).1 (Or.inl hfile)
    rw [h.isDir_eq_not_isFile hsome, hfile] at hdir
    cases hdir
  held p node hp hget := by
    rw [h.table.get?_key _ _ fun _ => hp] at hget
    have hv := (Option.filter_eq_some_iff.1 hget).1
    obtain ⟨d, name, hparts⟩ := exists_concat hp
    obtain ⟨parent, hparent, rfl⟩ := parent?_eq hparts
    have hname : name ∈ v.names parent.parts := by
      rw [← h.tree.listed, ← hparts, hv]
      rfl
    obtain ⟨dir, hdir, hisDir⟩ := View.isDir_of_mem_names hname
    rw [View.names_of_eq_some hdir] at hname
    have hfound : fs.nodes.get? parent.dirKey = some dir := by
      rw [h.table.get?_dirKey, hdir, Option.filter_some, if_pos hisDir]
    cases dir with
    | file => cases hisDir
    | dir names times =>
      exact ⟨parent, name, names, times, hparent, fileName?_eq hparts, hfound, hname⟩
  rooted p node hget n hn := by
    obtain ⟨q, hq, hv⟩ := (h.table.found _ node).1 hget
    have hp : node.isDir = false → p.parts ≠ [] := fun _ hp => by
      rw [hp] at hn
      exact absurd hn (Nat.not_lt_zero n)
    obtain ⟨hparts, -⟩ := (Path.key_inj (h.table.parts_ne_nil hv) hp).1 hq
    have hmore : p.parts.drop n ≠ [] := by
      rw [ne_eq, List.drop_eq_nil_iff]
      omega
    obtain ⟨dir, hdir, hisDir⟩ := h.tree.dir_above (p.parts.take n) hmore
      (by rw [List.take_append_drop, ← hparts, hv]; rfl)
    have habove : (p.above n).parts = p.parts.take n := rfl
    rw [h.table.isDir_eq, habove, hdir, Option.any_some, hisDir]
  backed d names times hget name hname := by
    rw [← h.names_eq hget, h.mem_names_iff] at hname
    obtain ⟨p, hparts, hsome⟩ := hname
    exact ⟨p, hparts, h.isDir_eq_not_isFile hsome⟩
  listing text names hnames := by
    simp only [readDir, bind_eq_ok_iff] at hnames
    obtain ⟨d, hd, hnames⟩ := hnames
    split at hnames
    · next names' times hget =>
      cases hnames
      refine ⟨h.names_eq hget ▸ h.tree.unrepeated d.parts, d, hd, fun name => ?_⟩
      rw [← h.names_eq hget, h.mem_names_iff]
      simp only [h.isFile_or_isDir]
    · cases hnames

end Shows

/-! ## What is reachable -/

/-- A new file system shows the root alone. -/
theorem shows_empty (clock : Time) : (empty clock).Shows (.single (.emptyDir clock)) where
  table := by
    refine ⟨List.nodup_singleton _, fun key node => ?_, fun parts hsome => ?_,
      .emptyDir clock, rfl, rfl⟩
    · rw [empty, Dictionary.get?_cons, Dictionary.get?_nil]
      constructor
      · intro hget
        split at hget
        · next hkey =>
          cases hget
          exact ⟨.root, hkey, rfl⟩
        · cases hget
      · rintro ⟨p, rfl, hv⟩
        unfold View.single at hv
        split at hv
        · next hparts =>
          cases hv
          exact if_pos (Path.dirKey_inj.2 hparts.symm)
        · cases hv
    · unfold View.single at hsome
      split at hsome
      · next hparts =>
        simp [hparts]
      · cases hsome
  tree := View.isTree_single rfl

theorem Reachable.shows (h : Reachable fs) : ∃ v, fs.Shows v := by
  induction h with
  | new clock => exact ⟨_, shows_empty clock⟩
  | tick clock _ ih =>
    obtain ⟨v, hv⟩ := ih
    exact ⟨v, hv.of_nodes rfl⟩
  | step mount world op _ ih =>
    obtain ⟨v, hv⟩ := ih
    obtain ⟨_, _, hsound⟩ := hv.perform mount world op
    exact hsound.tree

/-- A run of operations leads from what is reachable to what is reachable. -/
theorem Reachable.performAll {World : Type} (mount : Option (Asset.Mount World))
    (ops : List Operation) (world : World) (h : Reachable fs) :
    Reachable (performAll mount fs world ops).2.1 := by
  induction ops generalizing fs world with
  | nil => exact h
  | cons op ops ih => exact ih _ (h.step mount world op)

/-- Whatever was done to a file system, it is well formed. -/
theorem Reachable.wellFormed (h : Reachable fs) : WellFormed fs := by
  obtain ⟨v, hv⟩ := h.shows
  exact hv.isWellFormed

/-- An asset is fetched, the directory with it moves, and a directory cannot be made in a file. -/
theorem wellFormed_moved_asset :
    WellFormed (performAll (some ⟨["/lib/"], fun world _ => (.ok "a".toUTF8, world)⟩)
      (empty ⟨0, 0⟩) () [.readAll "/lib/a/b", .rename "/lib/a" "/c", .makeDir "/c/b/d" true]).2.1 :=
  Reachable.wellFormed (.performAll _ _ _ (.new ⟨0, 0⟩))

end Workbench.FileSystem
