import Workbench.Proofs.Descriptors
import Workbench.Proofs.ReadThrough

set_option autoImplicit false

/-! # Sizes of files

Three operations change the size of a file that is there: a write and the two ways to cut a file.
Each computes where the file would end and is refused, without a trace, where that is past the
largest size. A file may also be given its contents as a whole, by writing it or by fetching an
asset to its path, and then its size is not looked at. So a file is no larger than the largest size,
or it has the size of contents that some operation has put into a file as a whole. -/

namespace Workbench.FileSystem

variable {World α : Type} {fs fs' : FileSystem} {p : Path} {n : Nat}
  {nodes nodes' nodes'' : Dictionary String Node} {P : Nat → Prop}

/-! ## Sizes of contents -/

theorem size_zeros (n : Nat) : (zeros n).size = n := Array.size_replicate

theorem size_resize (data : ByteArray) (length : Nat) : (resize data length).size = length := by
  unfold resize
  split
  · next hle => rw [ByteArray.size_extract, Nat.sub_zero, Nat.min_eq_left hle]
  · rw [ByteArray.size_append, size_zeros]
    omega

theorem size_overlay (data : ByteArray) (offset : Nat) (bytes : ByteArray) :
    (overlay data offset bytes).size = max data.size (offset + bytes.size) := by
  rw [overlay, ByteArray.size_append, ByteArray.size_append, size_resize, ByteArray.size_extract]
  omega

/-! ## Sizes in a table of nodes -/

/-- A file in a table has a size. -/
def HasSize (nodes : Dictionary String Node) (n : Nat) : Prop :=
  ∃ key data times, nodes.get? key = some (.file data times) ∧ data.size = n

theorem hasSize_of_bytesAt {data : ByteArray} (h : fs.bytesAt p = some data) :
    HasSize fs.nodes data.size := by
  obtain ⟨times, hget⟩ := bytesAt_eq_some_iff.1 h
  exact ⟨p.fileKey, data, times, hget, rfl⟩

/-- Every size in the second table is one in the first, or one of some others. -/
structure Within (P : Nat → Prop) (nodes nodes' : Dictionary String Node) : Prop where
  sizes : ∀ n, HasSize nodes' n → P n ∨ HasSize nodes n

namespace Within

theorem refl (nodes : Dictionary String Node) : Within P nodes nodes := ⟨fun _ => Or.inr⟩

theorem trans (h : Within P nodes nodes') (h' : Within P nodes' nodes'') :
    Within P nodes nodes'' :=
  ⟨fun n hn => (h'.sizes n hn).elim Or.inl (h.sizes n)⟩

/-- A node may be kept under a key if its size, should it be a file, is accounted for. -/
theorem put (key : String) {node : Node} (hnode : ∀ data times, node = .file data times →
    P data.size ∨ HasSize nodes data.size) : Within P nodes (nodes.put key node) := by
  refine ⟨?_⟩
  rintro n ⟨other, data, times, hget, rfl⟩
  rw [Dictionary.get?_put] at hget
  split at hget
  · exact hnode data times (Option.some.inj hget)
  · exact Or.inr ⟨other, data, times, hget, rfl⟩

theorem remove (nodes : Dictionary String Node) (key : String) :
    Within P nodes (nodes.remove key) := by
  refine ⟨?_⟩
  rintro n ⟨other, data, times, hget, rfl⟩
  rw [Dictionary.get?_remove] at hget
  split at hget
  · cases hget
  · exact Or.inr ⟨other, data, times, hget, rfl⟩

/-- A node may be changed into one of its kind if the bytes of files stay. -/
theorem update (nodes : Dictionary String Node) (key : String) {f : Node → Node}
    (hdir : ∀ node, (f node).isDir = node.isDir)
    (hfile : ∀ data times, ∃ times', f (.file data times) = .file data times') :
    Within P nodes (nodes.update key f) := by
  refine ⟨?_⟩
  rintro n ⟨other, data, times, hget, rfl⟩
  rw [Dictionary.get?_update] at hget
  split at hget
  · obtain ⟨node, hnode, hchanged⟩ := Option.map_eq_some_iff.1 hget
    have hkind := hdir node
    rw [hchanged] at hkind
    cases node with
    | file data' times' =>
      obtain ⟨times'', heq⟩ := hfile data' times'
      cases hchanged.symm.trans heq
      exact Or.inr ⟨other, data, times', hnode, rfl⟩
    | dir names times' => cases hkind
  · exact Or.inr ⟨other, data, times, hget, rfl⟩

theorem moveNode (nodes : Dictionary String Node) (source target : String) :
    Within P nodes (FileSystem.moveNode nodes source target) := by
  unfold FileSystem.moveNode
  split
  · next node hnode =>
    refine ⟨?_⟩
    rintro n ⟨other, data, times, hget, rfl⟩
    rw [Dictionary.get?_put] at hget
    split at hget
    · rw [Option.some.inj hget] at hnode
      exact Or.inr ⟨source, data, times, hnode, rfl⟩
    · exact (remove nodes source).sizes _ ⟨other, data, times, hget, rfl⟩
  · exact refl nodes

theorem moveEach (moves : List (String × String)) (nodes : Dictionary String Node) :
    Within P nodes (FileSystem.moveEach moves nodes) := by
  induction moves generalizing nodes with
  | nil => exact refl nodes
  | cons move moves ih => exact (moveNode nodes move.1 move.2).trans (ih _)

/-! ## Sizes in a file system -/

theorem link (fs : FileSystem) (p : Path) : Within P fs.nodes (fs.link p).nodes := by
  unfold FileSystem.link
  split
  · exact update _ _ (Node.isDir_addName _ _) fun _ times => ⟨times, rfl⟩
  · exact refl _

theorem unlinkName (fs : FileSystem) (p : Path) : Within P fs.nodes (fs.unlinkName p).nodes := by
  unfold FileSystem.unlinkName
  split
  · exact update _ _ (Node.isDir_dropName _ _) fun _ times => ⟨times, rfl⟩
  · exact refl _

/-- A file may be given contents of a size that is accounted for. -/
theorem setFile (fs : FileSystem) (p : Path) {data : ByteArray} (times : Times)
    (hdata : P data.size ∨ HasSize fs.nodes data.size) :
    Within P fs.nodes (fs.setFile p data times).nodes := by
  refine put _ fun data' times' heq => ?_
  cases heq
  exact hdata

/-- A file that was found may be given its own contents. -/
theorem touch {data : ByteArray} {times : Times} (h : fs.file p = .ok (data, times))
    (times' : Times) : Within P fs.nodes (fs.setFile p data times').nodes :=
  setFile fs p times' (Or.inr (hasSize_of_bytesAt (file_eq_ok h)))

theorem putFile (fs : FileSystem) (p : Path) {data : ByteArray} (hdata : P data.size) :
    Within P fs.nodes (fs.putFile p data).nodes := by
  have hput : Within P fs.nodes (fs.put p.fileKey (.file data (.stamp fs.clock))).nodes :=
    setFile fs p _ (Or.inl hdata)
  exact hput.trans (link _ p)

theorem putDir (fs : FileSystem) (p : Path) : Within P fs.nodes (fs.putDir p).nodes := by
  have hput : Within P fs.nodes (fs.put p.dirKey (.emptyDir fs.clock)).nodes :=
    put _ fun data times heq => by cases heq
  exact hput.trans (link _ p)

/-- Nodes may be put if the sizes of files are accounted for. -/
theorem tolerant (P : Nat → Prop) : Tolerant (fun _ data => P data.size)
    fun fs fs' => Within P fs.nodes fs'.nodes where
  refl fs := refl fs.nodes
  trans := trans
  putDir := putDir
  putFile fs p _ := putFile fs p

theorem openLocal (hempty : P 0) (mode : OpenMode) (fs : FileSystem) (p : Path) :
    Within P fs.nodes (FileSystem.openLocal mode fs p).2.nodes :=
  (tolerant P).openLocal (fun _ _ _ => hempty)
    (fun fs₁ _ _ times _ _ => setFile fs₁ p times (Or.inl hempty)) fun fs₁ _ => refl fs₁.nodes

theorem statLocal (fs : FileSystem) (p : Path) : Within P fs.nodes (fs.statLocal p).2.nodes := by
  rw [statLocal_left]
  exact refl _

theorem readLocal (fs : FileSystem) (p : Path) : Within P fs.nodes (fs.readLocal p).2.nodes := by
  rcases readLocal_left fs p with hleft | ⟨data, times, hfile, hleft⟩
  · rw [hleft]
    exact refl _
  · rw [hleft]
    exact touch hfile _

theorem read (fs : FileSystem) (number length : Nat) (position : Option Nat) :
    Within P fs.nodes (fs.read number length position).2.nodes := by
  have houtcome := read_outcome fs number length position
  generalize fs.read number length position = outcome at houtcome ⊢
  cases houtcome with
  | stream => exact refl _
  | refused => exact refl _
  | missing => exact refl _
  | found d data times start bytes _ hfile => exact touch hfile _

/-- A write ends within the largest size, or within the file as it was. -/
theorem write {number count : Nat} {bytes : ByteArray} {position : Option Nat}
    (hbound : ∀ n ≤ maxFileSize, P n) (hok : fs.write number bytes position = .ok (count, fs')) :
    Within P fs.nodes fs'.nodes := by
  cases (written_of_write hok).2 with
  | stdout => exact refl _
  | stderr => exact refl _
  | file d data times offset _ _ _ hfile _ hend =>
    refine setFile fs d.path _ ?_
    rw [size_overlay]
    rcases Nat.le_total data.size (offset + bytes.size) with hle | hle
    · rw [Nat.max_eq_right hle]
      exact Or.inl (hbound _ hend)
    · rw [Nat.max_eq_left hle]
      exact Or.inr (hasSize_of_bytesAt (file_eq_ok hfile))

theorem truncateDescriptor {number length : Nat} (hbound : ∀ n ≤ maxFileSize, P n)
    (hok : fs.truncateDescriptor number length = .ok fs') : Within P fs.nodes fs'.nodes := by
  obtain ⟨d, data, times, -, -, hend, -, rfl⟩ := truncateDescriptor_eq_ok_iff.1 hok
  refine setFile fs d.path _ (Or.inl (hbound _ ?_))
  rw [size_resize]
  exact hend

theorem truncate {text : String} {length : Nat} (hbound : ∀ n ≤ maxFileSize, P n)
    (hok : fs.truncate text length = .ok fs') : Within P fs.nodes fs'.nodes := by
  obtain ⟨p, data, times, -, hend, -, rfl⟩ := truncate_eq_ok_iff.1 hok
  refine setFile fs p _ (Or.inl (hbound _ ?_))
  rw [size_resize]
  exact hend

theorem removed (fs : FileSystem) (key : String) (p : Path) :
    Within P fs.nodes ((fs.remove key).unlinkName p).nodes := by
  have hremoved : Within P fs.nodes (fs.remove key).nodes := remove fs.nodes key
  exact hremoved.trans (unlinkName _ p)

theorem removeDir {text : String} (hok : fs.removeDir text = .ok fs') :
    Within P fs.nodes fs'.nodes := by
  obtain ⟨p, node, -, -, -, -, rfl⟩ := removeDir_eq_ok_iff.1 hok
  exact removed fs p.dirKey p

theorem unlink {text : String} (hok : fs.unlink text = .ok fs') : Within P fs.nodes fs'.nodes := by
  obtain ⟨p, -, -, rfl⟩ := unlink_eq_ok_iff.1 hok
  exact removed fs p.fileKey p

theorem relink {moved : FileSystem} (h : Within P fs.nodes moved.nodes) (source target : Path) :
    Within P fs.nodes (moved.relink source target).nodes :=
  h.trans ((unlinkName moved source).trans (link _ target))

theorem carryOut (fs : FileSystem) (move : Move) :
    Within P fs.nodes (fs.carryOut move).2.nodes := by
  cases move with
  | none => exact refl _
  | file source target =>
    rw [FileSystem.carryOut]
    exact relink (moveNode fs.nodes source.fileKey target.fileKey) source target
  | dir source target =>
    have hmoved : Within P fs.nodes (moveNodes source.dirKey target.dirKey fs.nodes) :=
      moveEach _ fs.nodes
    rw [FileSystem.carryOut]
    rcases followDir source target fs.descriptors with ⟨result, descriptors⟩
    cases result with
    | error e => exact hmoved
    | ok => exact relink hmoved source target

theorem rename (fs : FileSystem) (source target : String) :
    Within P fs.nodes (fs.rename source target).2.nodes := by
  rcases rename_left fs source target with hleft | ⟨move, -, hleft⟩
  · rw [hleft]
    exact refl _
  · rw [hleft]
    exact carryOut fs move

theorem setTimes {text : String} {accessed modified : Time}
    (hok : fs.setTimes text accessed modified = .ok fs') : Within P fs.nodes fs'.nodes := by
  obtain ⟨p, key, -, -, rfl⟩ := setTimes_eq_ok_iff.1 hok
  exact update _ _ (fun node => Node.isDir_withTimes _ node) fun _ _ => ⟨_, rfl⟩

theorem close {number : Nat} (hok : fs.close number = .ok fs') : Within P fs.nodes fs'.nodes := by
  rcases close_eq_ok_iff.1 hok with ⟨-, rfl⟩ | ⟨-, -, rfl⟩ <;> exact refl _

theorem chdir {text : String} (hok : fs.chdir text = .ok fs') : Within P fs.nodes fs'.nodes := by
  obtain ⟨p, -, -, rfl⟩ := chdir_eq_ok_iff.1 hok
  exact refl _

end Within

/-! ## Every operation -/

/-- The contents that an operation has for a file as a whole: what it is to write, and what is
    fetched for it. -/
def Operation.contents (mount : Option (Asset.Mount World)) (fs : FileSystem) (world : World) :
    Operation → List ByteArray
  | .writeFile _ data => [data]
  | op =>
    match mount with
    | none => []
    | some m => (requestsOf m fs world op).filterMap fun request => request.2.toOption

/-- What is fetched for an operation is among its contents. -/
theorem mem_contents_of_fetched {m : Asset.Mount World} {world : World} {op : Operation}
    {text : String} (hop : op.fetched? = some text) (hp : fs.resolve text = .ok p)
    (hasks : asks m fs p = true) {data : ByteArray}
    (hfetch : (m.fetch world p.toString).1 = .ok data) :
    data ∈ op.contents (some m) fs world := by
  have hmem : data ∈ (requestsOf m fs world op).filterMap fun request => request.2.toOption := by
    rw [List.mem_filterMap]
    refine ⟨(p.toString, .ok data), ?_, rfl⟩
    rw [requestsOf, hop, ← hfetch]
    dsimp only
    rw [requestsAt, hp]
    dsimp only
    rw [requests, if_pos hasks]
    exact List.mem_singleton_self _
  cases op with
  | writeFile path data => cases hop
  | _ => exact hmem

/-- After an operation every file has a size that was there, or one within the largest size, or that
    of contents which the operation has for a file as a whole. -/
theorem within_perform (mount : Option (Asset.Mount World)) (fs : FileSystem) (world : World)
    (op : Operation) :
    Within (fun n => n ≤ maxFileSize ∨ ∃ data ∈ op.contents mount fs world, data.size = n)
      fs.nodes (fs.perform mount world op).2.1.nodes := by
  have hbound : ∀ n ≤ maxFileSize,
      n ≤ maxFileSize ∨ ∃ data ∈ op.contents mount fs world, data.size = n := fun _ => Or.inl
  have hempty := hbound 0 (Nat.zero_le _)
  have htolerant := Within.tolerant fun n =>
    n ≤ maxFileSize ∨ ∃ data ∈ op.contents mount fs world, data.size = n
  have hfetched : ∀ {text}, op.fetched? = some text → ∀ p m data, fs.resolve text = .ok p →
      mount = some m → fs.find? p = none → p.trailing = false → m.covers p = true →
      (m.fetch world p.toString).1 = .ok data →
        data.size ≤ maxFileSize ∨
          ∃ other ∈ op.contents mount fs world, other.size = data.size := by
    intro text hop p m data hp hm hfree hspelled hcovers hfetch
    subst hm
    have hasks : asks m fs p = true := by simp [asks, hfree, hspelled, hcovers]
    exact Or.inr ⟨data, mem_contents_of_fetched hop hp hasks hfetch, rfl⟩
  cases op with
  | openPath path mode => exact htolerant.withFetched (hfetched rfl) (.openLocal hempty mode)
  | stat path => exact htolerant.withFetched (hfetched rfl) .statLocal
  | readAll path => exact htolerant.withFetched (hfetched rfl) .readLocal
  | read number length position => exact .read fs number length position
  | write number data position =>
    rw [FileSystem.perform]
    split
    · next hwrite => exact .write hbound hwrite
    · exact .refl _
  | close number => exact htolerant.settle fun _ => .close
  | truncateDescriptor number length => exact htolerant.settle fun _ => .truncateDescriptor hbound
  | truncate path length => exact htolerant.settle fun _ => .truncate hbound
  | makeDir path recursive => exact htolerant.makeDir fs path recursive
  | removeDir path => exact htolerant.settle fun _ => .removeDir
  | unlink path => exact htolerant.settle fun _ => .unlink
  | rename source target => exact .rename fs source target
  | setTimes path accessed modified => exact htolerant.settle fun _ => .setTimes
  | writeFile path data =>
    exact htolerant.writeFile fun _ _ => Or.inr ⟨data, List.mem_singleton_self data, rfl⟩
  | chdir path => exact htolerant.settle fun _ => .chdir
  | statDescriptor | readDir | contains | cwd | resolve => exact .refl _
  | takeStdout | takeStderr | clearOutput => exact .refl _

/-! ## Every run -/

/-- File systems that come of a new one, with the contents that the operations on the way had for
    files as a whole. -/
inductive Supplied : FileSystem → List ByteArray → Prop where
  | new (clock : Time) : Supplied (.empty clock) []
  | tick {fs : FileSystem} {contents : List ByteArray} (clock : Time) :
      Supplied fs contents → Supplied { fs with clock := clock } contents
  | step {fs : FileSystem} {contents : List ByteArray} {World : Type}
      (mount : Option (Asset.Mount World)) (world : World) (op : Operation) :
      Supplied fs contents →
      Supplied (fs.perform mount world op).2.1 (contents ++ op.contents mount fs world)

/-- An operation is to make a file larger than the largest size, other than by giving it contents as
    a whole. -/
def Operation.Exceeds (fs : FileSystem) : Operation → Prop
  | .write number bytes position => ∃ d data, fs.descriptors.get? number = some d ∧
      d.mode.writable = true ∧ fs.bytesAt d.path = some data ∧
      maxFileSize < (if d.mode.append then data.size else position.getD d.cursor) + bytes.size
  | .truncateDescriptor number length => ∃ d, fs.descriptors.get? number = some d ∧
      d.mode.writable = true ∧ maxFileSize < length
  | .truncate _ length => maxFileSize < length
  | _ => False

variable {contents : List ByteArray}

theorem Supplied.reachable (h : Supplied fs contents) : Reachable fs := by
  induction h with
  | new clock => exact .new clock
  | tick clock _ ih => exact ih.tick clock
  | step mount world op _ ih => exact ih.step mount world op

theorem Supplied.hasSize (h : Supplied fs contents) {n : Nat} (hn : HasSize fs.nodes n) :
    n ≤ maxFileSize ∨ ∃ data ∈ contents, data.size = n := by
  induction h generalizing n with
  | new clock =>
    obtain ⟨key, data, times, hget, -⟩ := hn
    rw [empty, Dictionary.get?_cons, Dictionary.get?_nil] at hget
    split at hget <;> cases hget
  | tick clock _ ih => exact ih hn
  | step mount world op _ ih =>
    have hmore : ∀ {few : List ByteArray} {all : List ByteArray}, few ⊆ all →
        (n ≤ maxFileSize ∨ ∃ data ∈ few, data.size = n) →
        n ≤ maxFileSize ∨ ∃ data ∈ all, data.size = n := by
      intro few all hsub hfew
      obtain hbound | ⟨data, hdata, hsize⟩ := hfew
      · exact Or.inl hbound
      · exact Or.inr ⟨data, hsub hdata, hsize⟩
    rcases (within_perform mount _ world op).sizes n hn with hnew | hold
    · exact hmore (List.subset_append_right _ _) hnew
    · exact hmore (List.subset_append_left _ _) (ih hold)

theorem boundedEnd_of_exceeds {offset length : Nat} (h : maxFileSize < offset + length) :
    ∃ reason, boundedEnd offset length = .error (.invalidArgument reason) := by
  unfold boundedEnd
  rw [if_neg (Nat.not_le.2 h)]
  exact ⟨_, rfl⟩

/-- What would make a file too large is refused as an invalid argument, without a trace. -/
theorem perform_of_exceeds (hnumbered : Numbered fs) (mount : Option (Asset.Mount World))
    (world : World) {op : Operation} (h : op.Exceeds fs) :
    ∃ reason, fs.perform mount world op = (.error (.invalidArgument reason), fs, world) := by
  cases op with
  | write number bytes position =>
    obtain ⟨d, data, hd, hwritable, hbytes, hpast⟩ := h
    have hnumber := hnumbered.mem number ((Dictionary.mem_keys_iff _ _).2 (by rw [hd]; rfl))
    rw [firstDescriptor] at hnumber
    obtain ⟨times, hget⟩ := bytesAt_eq_some_iff.1 hbytes
    have hfile : fs.file d.path = .ok (data, times) := by rw [file, hget]
    have hfound : fs.descriptor number = .ok d := by rw [descriptor, hd]
    obtain ⟨reason, hend⟩ := boundedEnd_of_exceeds hpast
    have hrefused : fs.write number bytes position = .error (.invalidArgument reason) := by
      rw [write, if_neg (by omega), if_neg (by omega), if_neg (by omega), hfound]
      simp only [bind, Except.bind, hwritable, hfile, hend]
      rfl
    rw [perform, hrefused]
    exact ⟨reason, rfl⟩
  | truncateDescriptor number length =>
    obtain ⟨d, hd, hwritable, hpast⟩ := h
    have hfound : fs.descriptor number = .ok d := by rw [descriptor, hd]
    obtain ⟨reason, hend⟩ := boundedEnd_of_exceeds (show maxFileSize < length + 0 from hpast)
    have hrefused : fs.truncateDescriptor number length = .error (.invalidArgument reason) := by
      rw [truncateDescriptor, hfound]
      simp only [bind, Except.bind, hwritable, hend]
      rfl
    rw [perform, hrefused]
    exact ⟨reason, rfl⟩
  | truncate path length =>
    obtain ⟨reason, hend⟩ := boundedEnd_of_exceeds (show maxFileSize < length + 0 from h)
    have hrefused : fs.truncate path length = .error (.invalidArgument reason) := by
      rw [truncate, hend]
      rfl
    rw [perform, hrefused]
    exact ⟨reason, rfl⟩
  | _ => exact h.elim

/-- Whatever was done, a file is within the largest size, or has the size of contents that some
    operation had for a file as a whole; and what would make a file too large in any other way is
    refused as an invalid argument, without a trace. -/
theorem Supplied.bounded (h : Supplied fs contents) :
    Reachable fs ∧
    (∀ p data, fs.bytesAt p = some data →
      data.size ≤ maxFileSize ∨ ∃ whole ∈ contents, whole.size = data.size) ∧
    ∀ {World : Type} (mount : Option (Asset.Mount World)) (world : World) (op : Operation),
      op.Exceeds fs → ∃ reason,
        fs.perform mount world op = (.error (.invalidArgument reason), fs, world) :=
  ⟨h.reachable, fun _ _ hdata => h.hasSize (hasSize_of_bytesAt hdata),
    fun mount world _ => perform_of_exceeds h.reachable.numbered mount world⟩

/-- A file is written as a whole and opened, an asset is fetched beside it, and the file may not be
    written past the largest size. -/
theorem bounded_fetched :
    let mount : Option (Asset.Mount Unit) :=
      some ⟨["/lib/"], fun world _ => (.ok "asset".toUTF8, world)⟩
    let fs := (performAll mount (empty ⟨0, 0⟩) ()
      [.writeFile "/a" "abc".toUTF8, .openPath "/a" (.ofBits 0o2), .readAll "/lib/b"]).2.1
    Supplied fs ["abc".toUTF8, "asset".toUTF8] ∧
    (∀ p data, fs.bytesAt p = some data → data.size ≤ maxFileSize ∨
      ∃ whole ∈ ["abc".toUTF8, "asset".toUTF8], whole.size = data.size) ∧
    Operation.Exceeds fs (.write 3 "d".toUTF8 (some maxFileSize)) ∧
    ∃ reason, fs.perform mount () (.write 3 "d".toUTF8 (some maxFileSize)) =
      (.error (.invalidArgument reason), fs, ()) := by
  intro mount fs
  have hsupplied : Supplied fs ["abc".toUTF8, "asset".toUTF8] :=
    .step mount () (.readAll "/lib/b") (.step mount () (.openPath "/a" (.ofBits 0o2))
      (.step mount () (.writeFile "/a" "abc".toUTF8) (.new ⟨0, 0⟩)))
  have hexceeds : Operation.Exceeds fs (.write 3 "d".toUTF8 (some maxFileSize)) := by
    refine ⟨⟨⟨["a"], false, by decide, by decide⟩, .ofBits 0o2, 0, false⟩, "abc".toUTF8,
      ?_, ?_, ?_, ?_⟩
    · decide +kernel
    · decide +kernel
    · rfl
    · decide +kernel
  obtain ⟨-, hsizes, hrefused⟩ := Supplied.bounded hsupplied
  exact ⟨hsupplied, hsizes, hexceeds, hrefused mount () _ hexceeds⟩

/-- Contents are written as a whole whatever their size. -/
theorem bytesAt_written (data : ByteArray) :
    ((empty ⟨0, 0⟩).perform none () (.writeFile "/a" data)).2.1.bytesAt
      ⟨["a"], false, by decide, by decide⟩ = some data := rfl

/-- A file may be larger than the largest size. -/
theorem exists_size_gt : ¬ ∀ fs, Reachable fs → ∀ p data, fs.bytesAt p = some data →
    data.size ≤ maxFileSize := by
  intro h
  have hle := h _ (.step none () (.writeFile "/a" (zeros (maxFileSize + 1))) (.new ⟨0, 0⟩)) _ _
    (bytesAt_written _)
  rw [size_zeros] at hle
  exact Nat.not_succ_le_self _ hle

end Workbench.FileSystem
