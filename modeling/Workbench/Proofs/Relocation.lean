import Workbench.Proofs.DescriptorSteps

set_option autoImplicit false

/-! # Where nodes go

A node stays where it is through every operation but two: it goes when it is removed, as a file by
unlinking and as an empty directory by removing it, and it goes along when it, or a directory above
it, is moved. No key is lost from the table of nodes in any other way, and what arrives after a move
is what was there before. -/

namespace Workbench.FileSystem

variable {World α : Type} {v : View} {fs fs' : FileSystem} {p q : Path}

namespace Operation

/-- Where an operation takes what is at a place: a move that is granted takes along what is at or
    below the path that is moved. -/
def destination (fs : FileSystem) : Operation → List String → List String
  | .rename source target, place =>
    match (fs.rename source target).1, fs.resolve source, fs.resolve target with
    | .ok (), .ok s, .ok t =>
      if s.parts <+: place then t.parts ++ place.drop s.parts.length else place
    | _, _, _ => place
  | _, place => place

/-- An operation is to remove the file, or the directory, at a path. -/
def Ends (fs : FileSystem) (p : Path) (dir : Bool) : Operation → Prop
  | .unlink path => dir = false ∧ fs.Names path p
  | .removeDir path => dir = true ∧ fs.Names path p
  | _ => False

end Operation

/-! ## Keys that last -/

/-- No key was lost from the table of nodes. -/
structure Lasting (fs fs' : FileSystem) : Prop where
  keys : ∀ key, (fs.nodes.get? key).isSome → (fs'.nodes.get? key).isSome

namespace Lasting

theorem refl (fs : FileSystem) : Lasting fs fs := ⟨fun _ => id⟩

theorem trans {fs₁ : FileSystem} (h : Lasting fs fs₁) (h' : Lasting fs₁ fs') : Lasting fs fs' :=
  ⟨fun key hkey => h'.keys key (h.keys key hkey)⟩

/-- The table may be left alone, whatever else changes. -/
theorem of_nodes (h : fs'.nodes = fs.nodes) : Lasting fs fs' := ⟨fun _ => h ▸ id⟩

theorem put (fs : FileSystem) (key : String) (node : Node) : Lasting fs (fs.put key node) := by
  refine ⟨fun other hother => ?_⟩
  rw [FileSystem.put, Dictionary.get?_put]
  split
  · rfl
  · exact hother

theorem update (fs : FileSystem) (key : String) (f : Node → Node) :
    Lasting fs { fs with nodes := fs.nodes.update key f } := by
  refine ⟨fun other hother => ?_⟩
  rw [Dictionary.get?_update]
  split
  · rwa [Option.isSome_map]
  · exact hother

theorem link (fs : FileSystem) (p : Path) : Lasting fs (fs.link p) := by
  unfold FileSystem.link
  split
  · exact update fs _ _
  · exact refl fs

theorem unlinkName (fs : FileSystem) (p : Path) : Lasting fs (fs.unlinkName p) := by
  unfold FileSystem.unlinkName
  split
  · exact update fs _ _
  · exact refl fs

theorem setFile (fs : FileSystem) (p : Path) (data : ByteArray) (times : Times) :
    Lasting fs (fs.setFile p data times) :=
  put fs _ _

theorem putFile (fs : FileSystem) (p : Path) (data : ByteArray) : Lasting fs (fs.putFile p data) :=
  (put fs _ _).trans (link _ p)

theorem putDir (fs : FileSystem) (p : Path) : Lasting fs (fs.putDir p) :=
  (put fs _ _).trans (link _ p)

/-- Nodes may be put in whatever way. -/
theorem tolerant : Tolerant (fun _ _ => True) Lasting where
  refl := refl
  trans := trans
  putDir := putDir
  putFile fs p data _ := putFile fs p data

theorem withFetched (mount : Option (Asset.Mount World)) (fs : FileSystem) (world : World)
    (text : String) {act : FileSystem → Path → Except Error α × FileSystem}
    (hact : ∀ fs p, Lasting fs (act fs p).2) :
    Lasting fs (FileSystem.withFetched mount fs world text act).2.1 :=
  tolerant.withFetched (fun _ _ _ _ _ _ _ _ _ => trivial) hact

theorem openLocal (mode : OpenMode) (fs : FileSystem) (p : Path) :
    Lasting fs (FileSystem.openLocal mode fs p).2 :=
  tolerant.openLocal (fun _ _ _ => trivial) (fun fs₁ _ _ _ _ _ => setFile fs₁ p _ _)
    fun _ _ => of_nodes rfl

theorem statLocal (fs : FileSystem) (p : Path) : Lasting fs (fs.statLocal p).2 := by
  rw [statLocal_left]
  exact refl fs

theorem readLocal (fs : FileSystem) (p : Path) : Lasting fs (fs.readLocal p).2 := by
  rcases readLocal_left fs p with hleft | ⟨data, times, -, hleft⟩
  · rw [hleft]
    exact refl fs
  · rw [hleft]
    exact setFile fs p data _

theorem read (fs : FileSystem) (number length : Nat) (position : Option Nat) :
    Lasting fs (fs.read number length position).2 := by
  have houtcome := read_outcome fs number length position
  generalize fs.read number length position = outcome at houtcome ⊢
  cases houtcome with
  | stream => exact refl fs
  | refused => exact refl fs
  | missing => exact of_nodes rfl
  | found => exact (of_nodes rfl).trans ((setFile _ _ _ _).trans (of_nodes rfl))

theorem write {number n : Nat} {bytes : ByteArray} {position : Option Nat}
    (hok : fs.write number bytes position = .ok (n, fs')) : Lasting fs fs' := by
  cases (written_of_write hok).2 with
  | stdout => exact of_nodes rfl
  | stderr => exact of_nodes rfl
  | file d => exact (setFile fs d.path _ _).trans (of_nodes rfl)

theorem close {number : Nat} (hok : fs.close number = .ok fs') : Lasting fs fs' := by
  rcases close_eq_ok_iff.1 hok with ⟨-, rfl⟩ | ⟨-, -, rfl⟩
  · exact refl _
  · exact of_nodes rfl

theorem chdir {text : String} (hok : fs.chdir text = .ok fs') : Lasting fs fs' := by
  obtain ⟨p, -, -, rfl⟩ := chdir_eq_ok_iff.1 hok
  exact of_nodes rfl

theorem truncateDescriptor {number length : Nat}
    (hok : fs.truncateDescriptor number length = .ok fs') : Lasting fs fs' := by
  obtain ⟨d, data, times, -, -, -, -, rfl⟩ := truncateDescriptor_eq_ok_iff.1 hok
  exact setFile fs d.path _ _

theorem truncate {text : String} {length : Nat} (hok : fs.truncate text length = .ok fs') :
    Lasting fs fs' := by
  obtain ⟨p, data, times, -, -, -, rfl⟩ := truncate_eq_ok_iff.1 hok
  exact setFile fs p _ _

theorem setTimes {text : String} {accessed modified : Time}
    (hok : fs.setTimes text accessed modified = .ok fs') : Lasting fs fs' := by
  obtain ⟨p, key, -, -, rfl⟩ := setTimes_eq_ok_iff.1 hok
  exact update fs key _

end Lasting

/-! ## Removing -/

/-- What a removal leaves: everything but what was under one key. -/
theorem isSome_removed {key other : String} (hne : key ≠ other)
    (hother : (fs.nodes.get? other).isSome) (p : Path) :
    (((fs.remove key).unlinkName p).nodes.get? other).isSome := by
  refine (Lasting.unlinkName (fs.remove key) p).keys other ?_
  rw [FileSystem.remove, Dictionary.get?_remove, if_neg hne]
  exact hother

/-- Unlinking takes away the key of the file that is named. -/
theorem isSome_unlink {text : String} (hok : fs.unlink text = .ok fs') {key : String}
    (hkey : (fs.nodes.get? key).isSome)
    (hne : ∀ q, fs.resolve text = .ok q → fs.isFile q = true → q.fileKey ≠ key) :
    (fs'.nodes.get? key).isSome := by
  obtain ⟨q, hq, hfile, rfl⟩ := unlink_eq_ok_iff.1 hok
  exact isSome_removed (hne q hq hfile) hkey q

/-- Removing a directory takes away the key of the directory that is named. -/
theorem isSome_removeDir {text : String} (hok : fs.removeDir text = .ok fs') {key : String}
    (hkey : (fs.nodes.get? key).isSome)
    (hne : ∀ q, fs.resolve text = .ok q → q.dirKey ≠ key) : (fs'.nodes.get? key).isSome := by
  obtain ⟨q, node, hq, -, -, -, rfl⟩ := removeDir_eq_ok_iff.1 hok
  exact isSome_removed (hne q hq) hkey q

/-! ## Moving -/

namespace Shows

/-- What is in the way of a moved node is nothing, so a node is found where the move takes it. -/
theorem move_destination (h : fs.Shows v) {s t : Path} {node : Node} (hmovable : Movable v s t node)
    {place : List String} (hsome : (v place).isSome) :
    v.move s.parts t.parts
      (if s.parts <+: place then t.parts ++ place.drop s.parts.length else place) = v place := by
  split
  · next hpre =>
    obtain ⟨rest, rfl⟩ := hpre
    rw [List.drop_left, View.move_of_target]
  · next hnot =>
    refine View.move_of_other v hnot fun hpre => ?_
    rw [h.tree.none_under hmovable.free hpre] at hsome
    cases hsome

/-- A file has nothing below it, so moving it moves what is at its own path. -/
theorem follow_eq (h : fs.Shows v) {s t : Path} {node : Node} (hmovable : Movable v s t node)
    {place : List String} (hsome : (v place).isSome) :
    (if node.isDir then Move.dir s t else .file s t).follow place =
      if s.parts <+: place then t.parts ++ place.drop s.parts.length else place := by
  cases hkind : node.isDir with
  | true => rw [if_pos rfl, Move.follow]
  | false =>
    rw [if_neg Bool.false_ne_true, Move.follow]
    by_cases hplace : place = s.parts
    · subst hplace
      rw [if_pos rfl, if_pos List.prefix_rfl, List.drop_length, List.append_nil]
    · rw [if_neg hplace, if_neg]
      rintro ⟨rest, rfl⟩
      have hrest : rest ≠ [] := fun hnil => hplace (by rw [hnil, List.append_nil])
      have hnames := View.names_of_eq_some hmovable.there
      rw [Node.names_eq_nil_of_isDir_eq_false hkind] at hnames
      rw [h.tree.none_below hnames hrest] at hsome
      cases hsome

/-- Where a node is, descriptors follow it to where it goes. -/
theorem follow_eq_destination (h : fs.Shows v) (op : Operation) {place : List String}
    (hsome : (v place).isSome) : op.follow fs place = op.destination fs place := by
  cases op with
  | rename source target =>
    have hcases := h.rename_cases source target
    rw [Operation.follow, Operation.destination]
    generalize fs.rename source target = outcome at hcases ⊢
    cases hcases with
    | refused e hplan => rw [hplan]
    | idle s t hs ht hplan hsame =>
      rw [hplan, hs, ht]
      dsimp only
      split
      · next hpre => rw [← hsame, Move.follow, List.prefix_iff_eq_append.1 hpre]
      · rfl
    | moved s t node nodes table hs ht hmovable hplan hnodes htable =>
      rw [hplan, hs, ht]
      exact h.follow_eq hmovable hsome
  | _ => rfl

/-- What a node under a key shows. -/
theorem exists_of_isSome (h : fs.Shows v) {dir : Bool} (hp : dir = false → p.parts ≠ [])
    (hthere : (fs.nodes.get? (p.key dir)).isSome) :
    ∃ node, v p.parts = some node ∧ node.isDir = dir := by
  rw [h.table.get?_key p dir hp] at hthere
  obtain ⟨node, hnode⟩ := Option.isSome_iff_exists.1 hthere
  obtain ⟨hv, hdir⟩ := Option.filter_eq_some_iff.1 hnode
  exact ⟨node, hv, beq_iff_eq.1 hdir⟩

/-- A node that is there is found where a renaming takes it, and a file with its bytes. -/
theorem rename_destination (h : fs.Shows v) {source target : String} {dir : Bool}
    (hp : dir = false → p.parts ≠ []) (hthere : (fs.nodes.get? (p.key dir)).isSome)
    (hq : q.parts = Operation.destination fs (.rename source target) p.parts) :
    ((fs.rename source target).2.nodes.get? (q.key dir)).isSome ∧
      (dir = false → (fs.rename source target).2.bytesAt q = fs.bytesAt p) := by
  have hcases := h.rename_cases source target
  rw [Operation.destination] at hq
  generalize fs.rename source target = outcome at hcases hq ⊢
  have hsame : q.parts = p.parts →
      (fs.nodes.get? (q.key dir)).isSome ∧ (dir = false → fs.bytesAt q = fs.bytesAt p) := by
    intro hparts
    rw [Path.key_congr hparts]
    exact ⟨hthere, fun _ => bytesAt_eq_of_parts fs hparts⟩
  cases hcases with
  | refused e hplan => exact hsame hq
  | idle s t hs ht hplan hst =>
    rw [hs, ht] at hq
    refine hsame (hq.trans ?_)
    dsimp only
    split
    · next hpre => rw [← hst, List.prefix_iff_eq_append.1 hpre]
    · rfl
  | moved s t node nodes table hs ht hmovable hplan hnodes htable =>
    rw [hs, ht] at hq
    dsimp only at hq
    obtain ⟨there, hv, -⟩ := h.exists_of_isSome hp hthere
    have hqne : dir = false → q.parts ≠ [] := by
      intro hdir
      rw [hq]
      split
      · exact List.append_ne_nil_of_left_ne_nil hmovable.target_ne _
      · exact hp hdir
    have harrived : nodes.get? (q.key dir) = fs.nodes.get? (p.key dir) := by
      rw [hnodes.get?_key q dir hqne, h.table.get?_key p dir hp, hq,
        h.move_destination hmovable (hv ▸ Option.isSome_some)]
    refine ⟨?_, fun hdir => ?_⟩
    · refine (Lasting.link _ t).keys _ ((Lasting.unlinkName _ s).keys _ ?_)
      rwa [harrived]
    · dsimp only
      rw [relink, bytesAt_link (hqne hdir), bytesAt_unlinkName (hqne hdir)]
      rw [hdir] at harrived
      unfold bytesAt
      rw [← Path.key_false, ← Path.key_false, harrived]

/-! ## Every operation -/

/-- A node that is there stays there, or goes where it is taken, unless it is removed. -/
theorem node_perform (h : fs.Shows v) (mount : Option (Asset.Mount World)) (world : World)
    (op : Operation) {dir : Bool} (hp : dir = false → p.parts ≠ [])
    (hthere : (fs.nodes.get? (p.key dir)).isSome) (hkept : ¬ op.Ends fs p dir)
    (hq : q.parts = op.destination fs p.parts) :
    ((fs.perform mount world op).2.1.nodes.get? (q.key dir)).isSome := by
  -- all but a move leave the node at its path
  have hstays : q.parts = p.parts → ∀ {fs'}, Lasting fs fs' →
      (fs'.nodes.get? (q.key dir)).isSome := by
    intro hparts fs' hlasting
    rw [Path.key_congr hparts]
    exact hlasting.keys _ hthere
  cases op with
  | rename source target => exact (h.rename_destination hp hthere hq).1
  | unlink path =>
    rw [FileSystem.perform]
    cases hunlink : fs.unlink path with
    | error e => exact hstays hq (.refl fs)
    | ok fs' =>
      rw [Path.key_congr (show q.parts = p.parts from hq)]
      refine isSome_unlink hunlink hthere fun file hfile hisFile heq => ?_
      have hne : file.parts ≠ [] :=
        h.parts_ne_nil_of_bytesAt (by rw [← isFile_eq_isSome]; exact hisFile)
      obtain ⟨hparts, hdir⟩ := (Path.key_inj (a := false) (fun _ => hne) hp).1 heq
      exact hkept ⟨hdir.symm, file, hfile, hparts⟩
  | removeDir path =>
    rw [FileSystem.perform]
    cases hremove : fs.removeDir path with
    | error e => exact hstays hq (.refl fs)
    | ok fs' =>
      rw [Path.key_congr (show q.parts = p.parts from hq)]
      refine isSome_removeDir hremove hthere fun removed hremoved heq => ?_
      obtain ⟨hparts, hdir⟩ := (Path.key_inj (a := true) (fun hfile => by cases hfile) hp).1 heq
      exact hkept ⟨hdir.symm, removed, hremoved, hparts⟩
  | openPath path mode => exact hstays hq (.withFetched mount fs world path (.openLocal mode))
  | stat path => exact hstays hq (.withFetched mount fs world path .statLocal)
  | readAll path => exact hstays hq (.withFetched mount fs world path .readLocal)
  | read number length position => exact hstays hq (.read fs number length position)
  | write number data position =>
    rw [FileSystem.perform]
    split
    · next hwrite => exact hstays hq (.write hwrite)
    · exact hstays hq (.refl fs)
  | close number => exact hstays hq (Lasting.tolerant.settle fun _ => .close)
  | truncateDescriptor number length =>
    exact hstays hq (Lasting.tolerant.settle fun _ => .truncateDescriptor)
  | truncate path length => exact hstays hq (Lasting.tolerant.settle fun _ => .truncate)
  | makeDir path recursive => exact hstays hq (Lasting.tolerant.makeDir fs path recursive)
  | setTimes path accessed modified =>
    exact hstays hq (Lasting.tolerant.settle fun _ => .setTimes)
  | writeFile path data => exact hstays hq (Lasting.tolerant.writeFile fun _ _ => trivial)
  | chdir path => exact hstays hq (Lasting.tolerant.settle fun _ => .chdir)
  | statDescriptor | readDir | contains | cwd | resolve => exact hstays hq (.refl fs)
  | takeStdout | takeStderr | clearOutput => exact hstays hq (.of_nodes rfl)

/-- The bytes of a file go with it, unless the operation is to put others in their place. -/
theorem bytes_perform (h : fs.Shows v) (mount : Option (Asset.Mount World)) (world : World)
    (op : Operation) (hfile : (fs.bytesAt p).isSome) (hkept : ¬ op.Ends fs p false)
    (hsame : ¬ op.Rewrites fs p) (hq : q.parts = op.destination fs p.parts) :
    (fs.perform mount world op).2.1.bytesAt q = fs.bytesAt p := by
  have hp := h.parts_ne_nil_of_bytesAt hfile
  cases op with
  | rename source target =>
    have hthere : (fs.nodes.get? (p.key false)).isSome := by
      obtain ⟨data, hdata⟩ := Option.isSome_iff_exists.1 hfile
      obtain ⟨times, hget⟩ := bytesAt_eq_some_iff.1 hdata
      rw [Path.key_false, hget]
      rfl
    exact (h.rename_destination (fun _ => hp) hthere hq).2 rfl
  | unlink path =>
    rw [bytesAt_eq_of_parts _ (show q.parts = p.parts from hq)]
    rcases h.bytesAt_perform hfile mount world (.unlink path) with hbytes | ⟨hno, -⟩ | ⟨hnames, -⟩
    · exact hbytes
    · exact hno.elim
    · exact absurd ⟨rfl, hnames⟩ hkept
  | _ =>
    rw [bytesAt_eq_of_parts _ (show q.parts = p.parts from hq)]
    refine (h.bytesAt_perform hfile mount world _).resolve_right ?_
    rintro (⟨hrewrites, -⟩ | ⟨hremoves, -⟩)
    · exact hsame hrewrites
    · exact hremoves

end Shows

end Workbench.FileSystem
