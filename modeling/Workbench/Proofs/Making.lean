import Workbench.Proofs.NodeTable

set_option autoImplicit false

/-! # Making files and directories

A node is made by keeping it under its key and noting its name in the directory above. Making a
whole chain of directories stops at the first file on the way; in a tree everything above that file
is there already, so that nothing has been made by then. Otherwise the chain is the trail of the
view. -/

namespace Workbench.FileSystem

variable {nodes : Dictionary String Node} {v : View} {fs : FileSystem}

/-! ## Names of paths -/

/-- Every path but the root is a name in a directory. -/
theorem exists_concat {p : Path} (hp : p.parts ≠ []) : ∃ d name, p.parts = d ++ [name] :=
  (List.eq_nil_or_concat' p.parts).resolve_left hp

theorem parent?_eq {p : Path} {d : List String} {name : String} (hp : p.parts = d ++ [name]) :
    ∃ parent : Path, p.parent? = some parent ∧ parent.parts = d := by
  refine ⟨p.above (p.parts.length - 1), ?_, ?_⟩
  · rw [Path.parent?, if_neg]
    rw [Path.isRoot_iff, hp]
    exact List.append_ne_nil_of_right_ne_nil d (List.cons_ne_nil name [])
  · show p.parts.take (p.parts.length - 1) = d
    rw [hp, List.length_append, List.length_singleton, Nat.add_sub_cancel, List.take_left]

theorem fileName?_eq {p : Path} {d : List String} {name : String} (hp : p.parts = d ++ [name]) :
    p.fileName? = some name := by
  rw [Path.fileName?, hp, List.getLast?_concat]

/-- The written form of a path is read back from everywhere. -/
theorem resolve_toString (fs : FileSystem) (p : Path) :
    ∃ q, fs.resolve p.toString = .ok q ∧ q.parts = p.parts := by
  obtain ⟨q, hq, hparts⟩ := Path.resolve_toString fs.cwd p
  exact ⟨q, by rw [resolve, hq]; rfl, hparts⟩

namespace Represents

/-- Noting the name of a path. -/
theorem link (h : Represents fs.nodes v) {p : Path} {d : List String} {name : String}
    (hp : p.parts = d ++ [name]) :
    Represents (fs.link p).nodes (v.modify d (·.addName fs.clock name)) := by
  obtain ⟨parent, hparent, rfl⟩ := parent?_eq hp
  rw [FileSystem.link, hparent, fileName?_eq hp]
  refine h.updateDir parent (Node.isDir_addName fs.clock name) fun node hfile => ?_
  cases node with
  | file data times => rfl
  | dir names times => cases hfile

/-- Striking the name of a path. -/
theorem unlinkName (h : Represents fs.nodes v) {p : Path} {d : List String} {name : String}
    (hp : p.parts = d ++ [name]) :
    Represents (fs.unlinkName p).nodes (v.modify d (·.dropName fs.clock name)) := by
  obtain ⟨parent, hparent, rfl⟩ := parent?_eq hp
  rw [FileSystem.unlinkName, hparent, fileName?_eq hp]
  refine h.updateDir parent (Node.isDir_dropName fs.clock name) fun node hfile => ?_
  cases node with
  | file data times => rfl
  | dir names times => cases hfile

end Represents

/-- Noting a name changes nothing but nodes. -/
theorem link_eq (fs : FileSystem) (p : Path) :
    fs.link p = { fs with nodes := (fs.link p).nodes } := by
  unfold link
  split <;> rfl

/-- Striking a name changes nothing but nodes. -/
theorem unlinkName_eq (fs : FileSystem) (p : Path) :
    fs.unlinkName p = { fs with nodes := (fs.unlinkName p).nodes } := by
  unfold unlinkName
  split <;> rfl

/-- A file system with other nodes. -/
abbrev withNodes (fs : FileSystem) (nodes : Dictionary String Node) : FileSystem :=
  { fs with nodes := nodes }

/-! ## One node -/

namespace Shows

/-- A node without names may be made in a directory, in place of what has no names either and is of
    its kind. -/
theorem attach (h : fs.Shows v) {p : Path} {d : List String} {name : String}
    (hp : p.parts = d ++ [name]) {dir : Node} (hd : v d = some dir) (hdir : dir.isDir = true)
    (node : Node) (hold : ∀ old, v p.parts = some old → old.isDir = node.isDir)
    (hplace : v.names p.parts = []) (hnode : node.names = []) :
    ∃ nodes', (fs.put (p.key node.isDir) node).link p = fs.withNodes nodes' ∧
      (fs.withNodes nodes').Shows
        ((v.set p.parts (some node)).modify d (·.addName fs.clock name)) := by
  have hroot : p.parts ≠ [] := by
    rw [hp]
    exact List.append_ne_nil_of_right_ne_nil d (List.cons_ne_nil name [])
  have hput : Represents (fs.put (p.key node.isDir) node).nodes (v.set p.parts (some node)) :=
    h.table.put p node hold fun _ => hroot
  -- the table is changed in two steps, the tree only with both of them
  refine ⟨_, link_eq _ _, hput.link hp, ?_⟩
  rw [hp] at hplace ⊢
  exact h.tree.set_addName fs.clock name hd hdir hplace hnode

/-- A file may be put into a directory where no directory is. -/
theorem putFile (h : fs.Shows v) {p : Path} {d : List String} {name : String}
    (hp : p.parts = d ++ [name]) {dir : Node} (hd : v d = some dir) (hdir : dir.isDir = true)
    (hold : ∀ old, v p.parts = some old → old.isDir = false) (data : ByteArray) :
    ∃ nodes', fs.putFile p data = fs.withNodes nodes' ∧
      (fs.withNodes nodes').Shows
        ((v.set p.parts (some (.file data (.stamp fs.clock)))).modify d
          (·.addName fs.clock name)) := by
  have hplace : v.names p.parts = [] := by
    cases hv : v p.parts with
    | none => exact View.names_of_eq_none hv
    | some old =>
      rw [View.names_of_eq_some hv, Node.names_eq_nil_of_isDir_eq_false (hold old hv)]
  exact h.attach hp hd hdir (.file data (.stamp fs.clock)) hold hplace rfl

/-- A directory may be put into a directory where nothing is. -/
theorem putDir (h : fs.Shows v) {p : Path} {d : List String} {name : String}
    (hp : p.parts = d ++ [name]) {dir : Node} (hd : v d = some dir) (hdir : dir.isDir = true)
    (hnone : v p.parts = none) :
    ∃ nodes', fs.putDir p = fs.withNodes nodes' ∧
      (fs.withNodes nodes').Shows
        ((v.set p.parts (some (.emptyDir fs.clock))).modify d (·.addName fs.clock name)) :=
  h.attach hp hd hdir (.emptyDir fs.clock)
    (fun _ hold => absurd (hnone.symm.trans hold) (by simp)) (View.names_of_eq_none hnone) rfl

end Shows

/-! ## A chain of directories -/

/-- Directories that are there are passed over. -/
theorem makeEach_append_of_isDir {dirs : List Path} (h : ∀ dir ∈ dirs, fs.isDir dir = true)
    (rest : List Path) : makeEach (dirs ++ rest) fs = makeEach rest fs := by
  induction dirs with
  | nil => rfl
  | cons dir dirs ih =>
    rw [List.cons_append, makeEach, if_pos (h dir List.mem_cons_self)]
    exact ih fun other hother => h other (List.mem_cons_of_mem dir hother)

/-- Where the first directories can be made, the others are made after them. -/
theorem makeEach_append_of_ok {dirs : List Path} {fs' : FileSystem}
    (h : makeEach dirs fs = (.ok (), fs')) (rest : List Path) :
    makeEach (dirs ++ rest) fs = makeEach rest fs' := by
  induction dirs generalizing fs with
  | nil =>
    cases h
    rfl
  | cons dir dirs ih =>
    rw [makeEach] at h
    rw [List.cons_append, makeEach]
    split at h
    · next hdir =>
      rw [if_pos hdir]
      exact ih h
    · next hdir =>
      rw [if_neg hdir]
      split at h
      · cases h
      · next hfile =>
        rw [if_neg hfile]
        exact ih h

/-- Of two paths with the same components either will do for a directory. -/
theorem makeEach_singleton_congr {p q : Path} (h : p.parts = q.parts) :
    makeEach [p] fs = makeEach [q] fs := by
  have hdirKey : p.dirKey = q.dirKey := Path.dirKey_inj.2 h
  have htext : p.toString = q.toString := Path.toString_inj.2 h
  have hparent : p.parent? = q.parent? := by
    have habove : p.above (p.parts.length - 1) = q.above (q.parts.length - 1) := by
      simp only [Path.above, h]
    rw [Path.parent?, Path.parent?, habove, Path.isRoot, Path.isRoot, h]
  have hname : p.fileName? = q.fileName? := by rw [Path.fileName?, Path.fileName?, h]
  simp only [makeEach, FileSystem.isDir, FileSystem.isFile, FileSystem.putDir, FileSystem.link,
    Path.fileKey, hdirKey, htext, hparent, hname]
  rfl

/-- The directories on the way down to a path are those of its first components. -/
theorem makeDirs_eq (fs : FileSystem) (p : Path) :
    fs.makeDirs p = makeEach ((List.range (p.parts.length + 1)).map p.above) fs := by
  have hsame : p.parts = (p.above p.parts.length).parts := (List.take_length).symm
  have hsplit : ∀ dirs : List Path, makeEach (dirs ++ [p]) fs =
      makeEach (dirs ++ [p.above p.parts.length]) fs := by
    intro dirs
    induction dirs generalizing fs with
    | nil => exact makeEach_singleton_congr hsame
    | cons dir dirs ih =>
      rw [List.cons_append, List.cons_append, makeEach, makeEach, ih, ih]
  rw [makeDirs, Path.ancestors, hsplit, List.range_succ, List.map_append]
  rfl

namespace Shows

/-- One directory, if it is missing. -/
theorem makeOne (h : fs.Shows v) {p : Path} {d : List String} {name : String}
    (hp : p.parts = d ++ [name]) {dir : Node} (hd : v d = some dir) (hdir : dir.isDir = true)
    (hclear : ∀ node, v p.parts = some node → node.isDir = true) :
    ∃ nodes', makeEach [p] fs = (.ok (), fs.withNodes nodes') ∧
      (fs.withNodes nodes').Shows
        (if (v p.parts).isSome then v
          else (v.set p.parts (some (.emptyDir fs.clock))).modify d (·.addName fs.clock name)) := by
  rw [makeEach, h.table.isDir_eq, h.table.isFile_eq]
  cases hv : v p.parts with
  | some node =>
    rw [Option.any_some, if_pos (hclear node hv)]
    exact ⟨fs.nodes, rfl, h⟩
  | none =>
    obtain ⟨nodes', hput, hshows⟩ := h.putDir hp hd hdir hv
    rw [Option.any_none, Option.any_none, if_neg Bool.false_ne_true, if_neg Bool.false_ne_true,
      hput]
    exact ⟨nodes', rfl, hshows⟩

/-- The directories on the way down, where a path can pass. -/
theorem makeAbove (h : fs.Shows v) (p : Path) {n : Nat} (hn : n ≤ p.parts.length)
    (hpass : v.Passable (p.parts.take n)) :
    ∃ nodes', makeEach ((List.range (n + 1)).map p.above) fs = (.ok (), fs.withNodes nodes') ∧
      (fs.withNodes nodes').Shows (v.trail fs.clock (p.parts.take n)) := by
  induction n with
  | zero =>
    obtain ⟨node, hv, hdir⟩ := h.table.root
    have hroot : (p.above 0).parts = [] := (List.take_zero : p.parts.take 0 = [])
    have hisDir : fs.isDir (p.above 0) = true := by
      rw [h.table.isDir_eq, hroot, hv, Option.any_some, hdir]
    refine ⟨fs.nodes, ?_, ?_⟩
    · rw [List.range_one, List.map_singleton, makeEach, if_pos hisDir]
      rfl
    · rw [List.take_zero, View.trail_nil fs.clock hv]
      exact h
  | succ n ih =>
    have htake : p.parts.take (n + 1) = p.parts.take n ++ [p.parts[n]] :=
      List.take_succ_eq_append_getElem hn
    obtain ⟨nodes', hmade, hshows⟩ := ih (by omega) fun place hplace =>
      hpass place (htake ▸ hplace.trans (List.prefix_append _ _))
    rw [List.range_succ, List.map_append, makeEach_append_of_ok hmade, List.map_singleton]
    -- what is below the end of the trail is as it was
    have hbelow : v.trail fs.clock (p.parts.take n) (p.parts.take (n + 1)) =
        v (p.parts.take (n + 1)) := by
      refine View.trail_aside v _ ?_
      rw [htake]
      exact View.not_prefix_self_append_singleton _ _
    obtain ⟨dir, hd, hdir⟩ : ∃ dir, v.trail fs.clock (p.parts.take n) (p.parts.take n) =
        some dir ∧ dir.isDir = true :=
      ⟨_, View.trail_self v fs.clock _, View.isDir_getD_emptyDir fs.clock
        (hpass _ (htake ▸ List.prefix_append _ _))⟩
    obtain ⟨nodes'', hone, hshows'⟩ := hshows.makeOne (p := p.above (n + 1)) htake hd hdir
      fun node hnode => hpass _ List.prefix_rfl node (hbelow.symm.trans hnode)
    refine ⟨nodes'', hone, ?_⟩
    rw [htake, ← h.tree.trail_concat_eq, ← htake]
    exact hshows'

/-- Where a file is in the way, nothing is made. -/
theorem makeAbove_blocked (h : fs.Shows v) (p : Path) {m n : Nat} (hmn : m ≤ n)
    (hn : n ≤ p.parts.length) {file : Node} (hv : v (p.parts.take m) = some file)
    (hfile : file.isDir = false) :
    makeEach ((List.range (n + 1)).map p.above) fs =
      (.error (.notDirectory (p.above m).toString), fs) := by
  obtain ⟨k, rfl⟩ := Nat.exists_eq_add_of_le hmn
  -- all directories above the file are there
  have habove : ∀ dir ∈ (List.range m).map p.above, fs.isDir dir = true := by
    intro dir hdir
    obtain ⟨i, hi, rfl⟩ := List.mem_map.1 hdir
    have him : i < m := List.mem_range.1 hi
    have hsplit : p.parts.take m = p.parts.take i ++ (p.parts.take m).drop i := by
      have hsplit := (List.take_append_drop i (p.parts.take m)).symm
      rwa [List.take_take, Nat.min_eq_left him.le] at hsplit
    have hmore : (p.parts.take m).drop i ≠ [] := by
      rw [ne_eq, List.drop_eq_nil_iff, List.length_take]
      omega
    obtain ⟨node, hnode, hisDir⟩ := h.tree.dir_above _ hmore (by rw [← hsplit, hv]; rfl)
    have hparts : (p.above i).parts = p.parts.take i := rfl
    rw [h.table.isDir_eq, hparts, hnode, Option.any_some, hisDir]
  have hparts : (p.above m).parts = p.parts.take m := rfl
  rw [show m + k + 1 = m + (k + 1) by omega, List.range_add, List.map_append,
    makeEach_append_of_isDir habove, List.range_succ_eq_map, List.map_cons, List.map_cons,
    Nat.add_zero, makeEach, h.table.isDir_eq, h.table.isFile_eq, hparts, hv, Option.any_some,
    Option.any_some, hfile, if_neg Bool.false_ne_true, if_pos]
  cases file with
  | file data times => rfl
  | dir names times => cases hfile

/-- All directories down to a path are made, or none. -/
theorem makeDirs (h : fs.Shows v) (p : Path) :
    (v.Passable p.parts ∧ ∃ nodes', fs.makeDirs p = (.ok (), fs.withNodes nodes') ∧
      (fs.withNodes nodes').Shows (v.trail fs.clock p.parts)) ∨
    ∃ e, fs.makeDirs p = (.error e, fs) := by
  rw [makeDirs_eq]
  by_cases hpass : v.Passable p.parts
  · have hmade := h.makeAbove p (le_refl p.parts.length)
    rw [List.take_length] at hmade
    exact Or.inl ⟨hpass, hmade hpass⟩
  · unfold View.Passable at hpass
    push Not at hpass
    obtain ⟨place, hplace, node, hv, hfile⟩ := hpass
    rw [List.prefix_iff_eq_take.1 hplace] at hv
    exact Or.inr ⟨_, h.makeAbove_blocked p hplace.length_le (le_refl _) hv
      (Bool.not_eq_true _ ▸ hfile)⟩

/-- A file is put at a path where no directory is, with all directories above it, or nothing is
    done. -/
theorem placeFile (h : fs.Shows v) {p : Path}
    (hold : ∀ node, v p.parts = some node → node.isDir = false) (data : ByteArray) :
    (v.Passable p.parts.dropLast ∧
      ∃ nodes', fs.placeFile p data = (.ok (), fs.withNodes nodes') ∧
        (fs.withNodes nodes').Shows
          ((v.trail fs.clock p.parts).set p.parts (some (.file data (.stamp fs.clock))))) ∨
    ∃ e, fs.placeFile p data = (.error e, fs) := by
  have hroot : p.parts ≠ [] := by
    intro hp
    obtain ⟨node, hv, hdir⟩ := h.table.root
    exact Bool.false_ne_true ((hold node (hp ▸ hv)).symm.trans hdir)
  obtain ⟨d, name, hp⟩ := exists_concat hroot
  obtain ⟨parent, hparent, rfl⟩ := parent?_eq hp
  have hparents : fs.makeParents p = fs.makeDirs parent := by rw [makeParents, hparent]
  rw [FileSystem.placeFile, hparents]
  rcases h.makeDirs parent with ⟨hpass, nodes', hmade, hshows⟩ | ⟨e, hrefused⟩
  · refine Or.inl ⟨by rwa [hp, List.dropLast_concat], ?_⟩
    have hd := View.trail_self v fs.clock parent.parts
    have hbelow : v.trail fs.clock parent.parts p.parts = v p.parts := by
      rw [hp]
      exact View.trail_aside v _ (View.not_prefix_self_append_singleton _ _)
    obtain ⟨nodes'', hput, hshows'⟩ := hshows.putFile hp hd
      (View.isDir_getD_emptyDir fs.clock (hpass _ List.prefix_rfl))
      (fun node hnode => hold node (hbelow.symm.trans hnode)) data
    refine ⟨nodes'', ?_, ?_⟩
    · rw [hmade]
      show (_, FileSystem.putFile _ p data) = _
      rw [hput]
    · rw [hp, ← View.trail_concat, ← hp]
      exact hshows'
  · exact Or.inr ⟨e, by rw [hrefused]⟩

/-- A file can be put at a path above which there are directories at most. -/
theorem placeFile_ok (h : fs.Shows v) {p : Path} (hroot : p.parts ≠ [])
    (hpass : v.Passable p.parts.dropLast) (data : ByteArray) :
    (fs.placeFile p data).1 = .ok () := by
  obtain ⟨d, name, hp⟩ := exists_concat hroot
  obtain ⟨parent, hparent, rfl⟩ := parent?_eq hp
  rw [hp, List.dropLast_concat, ← List.take_length (l := parent.parts)] at hpass
  obtain ⟨nodes', hmade, -⟩ := h.makeAbove parent (le_refl _) hpass
  rw [FileSystem.placeFile, makeParents, hparent]
  dsimp only
  rw [makeDirs_eq, hmade]

end Shows

end Workbench.FileSystem
