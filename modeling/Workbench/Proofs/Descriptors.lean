import Workbench.Proofs.TreeInvariant

set_option autoImplicit false

/-! # The table of descriptors

Only four operations change the table of descriptors: opening enters the next number, closing takes
a number away, reading and writing move a cursor, and a move gives descriptors other paths. All the
others change nodes at most. So every number in the table has been handed out by `open`, and none is
that of a standard stream. -/

namespace Workbench.FileSystem

variable {World α : Type} {fs fs' : FileSystem}

/-- Nothing has changed but the nodes. -/
structure OnlyNodes (fs fs' : FileSystem) : Prop where
  eq : fs' = fs.withNodes fs'.nodes

namespace OnlyNodes

theorem refl (fs : FileSystem) : OnlyNodes fs fs := ⟨rfl⟩

theorem trans {fs'' : FileSystem} (h : OnlyNodes fs fs') (h' : OnlyNodes fs' fs'') :
    OnlyNodes fs fs'' := by
  have heq := h'.eq
  rw [h.eq] at heq
  exact ⟨heq⟩

theorem descriptors (h : OnlyNodes fs fs') : fs'.descriptors = fs.descriptors := by rw [h.eq]

theorem cwd (h : OnlyNodes fs fs') : fs'.cwd = fs.cwd := by rw [h.eq]

theorem stdout (h : OnlyNodes fs fs') : fs'.stdout = fs.stdout := by rw [h.eq]

theorem stderr (h : OnlyNodes fs fs') : fs'.stderr = fs.stderr := by rw [h.eq]

theorem clock (h : OnlyNodes fs fs') : fs'.clock = fs.clock := by rw [h.eq]

/-- A text leads to the same path as before. -/
theorem resolve (h : OnlyNodes fs fs') (text : String) : fs'.resolve text = fs.resolve text := by
  rw [FileSystem.resolve, FileSystem.resolve, h.cwd]

theorem put (fs : FileSystem) (key : String) (node : Node) : OnlyNodes fs (fs.put key node) := ⟨rfl⟩

theorem remove (fs : FileSystem) (key : String) : OnlyNodes fs (fs.remove key) := ⟨rfl⟩

theorem link (fs : FileSystem) (p : Path) : OnlyNodes fs (fs.link p) := by
  rw [link_eq]
  exact ⟨rfl⟩

theorem unlinkName (fs : FileSystem) (p : Path) : OnlyNodes fs (fs.unlinkName p) := by
  rw [unlinkName_eq]
  exact ⟨rfl⟩

theorem putFile (fs : FileSystem) (p : Path) (data : ByteArray) :
    OnlyNodes fs (fs.putFile p data) :=
  (put fs _ _).trans (link _ p)

theorem putDir (fs : FileSystem) (p : Path) : OnlyNodes fs (fs.putDir p) :=
  (put fs _ _).trans (link _ p)

/-- Nodes may be put in whatever way. -/
theorem tolerant : Tolerant (fun _ _ => True) OnlyNodes where
  refl := refl
  trans := trans
  putDir := putDir
  putFile fs p data _ := putFile fs p data

theorem populate (mount : Option (Asset.Mount World)) (fs : FileSystem) (world : World)
    (p : Path) : OnlyNodes fs (FileSystem.populate mount fs world p).2.1 :=
  tolerant.populate fun _ _ _ _ _ _ _ => trivial

theorem makeDir (fs : FileSystem) (text : String) (recursive : Bool) :
    OnlyNodes fs (fs.makeDir text recursive).2 :=
  tolerant.makeDir fs text recursive

theorem writeFile (fs : FileSystem) (text : String) (data : ByteArray) :
    OnlyNodes fs (fs.writeFile text data).2 :=
  tolerant.writeFile fun _ _ => trivial

theorem removed (fs : FileSystem) (key : String) (p : Path) :
    OnlyNodes fs ((fs.remove key).unlinkName p) :=
  (remove fs key).trans (unlinkName _ p)

theorem removeDir {text : String} (hok : fs.removeDir text = .ok fs') : OnlyNodes fs fs' := by
  obtain ⟨p, node, -, -, -, -, rfl⟩ := removeDir_eq_ok_iff.1 hok
  exact removed fs p.dirKey p

theorem unlink {text : String} (hok : fs.unlink text = .ok fs') : OnlyNodes fs fs' := by
  obtain ⟨p, -, -, rfl⟩ := unlink_eq_ok_iff.1 hok
  exact removed fs p.fileKey p

theorem setTimes {text : String} {accessed modified : Time}
    (hok : fs.setTimes text accessed modified = .ok fs') : OnlyNodes fs fs' := by
  obtain ⟨p, key, -, -, rfl⟩ := setTimes_eq_ok_iff.1 hok
  exact ⟨rfl⟩

theorem truncate {text : String} {length : Nat} (hok : fs.truncate text length = .ok fs') :
    OnlyNodes fs fs' := by
  obtain ⟨p, data, times, -, -, -, rfl⟩ := truncate_eq_ok_iff.1 hok
  exact ⟨rfl⟩

theorem truncateDescriptor {number length : Nat}
    (hok : fs.truncateDescriptor number length = .ok fs') : OnlyNodes fs fs' := by
  obtain ⟨d, data, times, -, -, -, -, rfl⟩ := truncateDescriptor_eq_ok_iff.1 hok
  exact ⟨rfl⟩

theorem createFor {p : Path} {mode : OpenMode} (hok : fs.createFor p mode = .ok fs') :
    OnlyNodes fs fs' :=
  tolerant.createFor (fun _ _ _ => trivial) hok

theorem readLocal (fs : FileSystem) (p : Path) : OnlyNodes fs (fs.readLocal p).2 := by
  rcases readLocal_left fs p with hleft | ⟨data, times, -, hleft⟩
  · rw [hleft]
    exact refl fs
  · rw [hleft]
    exact ⟨rfl⟩

theorem relink (fs : FileSystem) (source target : Path) :
    OnlyNodes fs (fs.relink source target) :=
  (unlinkName fs source).trans (link _ target)

theorem readAll (mount : Option (Asset.Mount World)) (fs : FileSystem) (world : World)
    (text : String) : OnlyNodes fs (fs.readAll mount world text).2.1 :=
  tolerant.withFetched (fun _ _ _ _ _ _ _ _ _ => trivial) readLocal

theorem stat (mount : Option (Asset.Mount World)) (fs : FileSystem) (world : World)
    (text : String) : OnlyNodes fs (fs.stat mount world text).2.1 :=
  tolerant.withFetched (fun _ _ _ _ _ _ _ _ _ => trivial) fun fs₁ p => by
    rw [statLocal_left]
    exact refl fs₁

end OnlyNodes

/-! ## Numbers -/

/-- The table of descriptors has stayed as it was. -/
structure SameTable (fs fs' : FileSystem) : Prop where
  descriptors : fs'.descriptors = fs.descriptors
  next : fs'.nextDescriptor = fs.nextDescriptor

theorem OnlyNodes.sameTable (h : OnlyNodes fs fs') : SameTable fs fs' :=
  ⟨h.descriptors, by rw [h.eq]⟩

theorem SameTable.refl (fs : FileSystem) : SameTable fs fs := ⟨rfl, rfl⟩

theorem SameTable.chdir {text : String} (hok : fs.chdir text = .ok fs') : SameTable fs fs' := by
  obtain ⟨p, -, -, rfl⟩ := chdir_eq_ok_iff.1 hok
  exact ⟨rfl, rfl⟩

/-- No number has come into the table but the next one, which is counted up then. -/
structure Grown (fs fs' : FileSystem) : Prop where
  next : fs.nextDescriptor ≤ fs'.nextDescriptor
  mem : ∀ n ∈ fs'.descriptors.keys, n ∈ fs.descriptors.keys ∨ n = fs.nextDescriptor

theorem SameTable.grown (h : SameTable fs fs') : Grown fs fs' :=
  ⟨h.next.ge, fun _ hn => Or.inl (h.descriptors ▸ hn)⟩

theorem Grown.refl (fs : FileSystem) : Grown fs fs := (SameTable.refl fs).grown

/-- What is done before the table grows may be anything that leaves it alone. -/
theorem Grown.after {fs₁ : FileSystem} (h : Grown fs₁ fs') (hsame : SameTable fs fs₁) :
    Grown fs fs' := by
  obtain ⟨hnext, hmem⟩ := h
  rw [hsame.descriptors, hsame.next] at hmem
  exact ⟨hsame.next ▸ hnext, hmem⟩

theorem keys_update (d : Dictionary Nat Descriptor) (n : Nat) (f : Descriptor → Descriptor) :
    (d.update n f).keys = d.keys := by
  unfold Dictionary.update
  split
  · next value hvalue =>
    have hmem : n ∈ d.keys := (Dictionary.mem_keys_iff d n).2 (by rw [hvalue]; rfl)
    rw [Dictionary.keys_put, if_pos hmem]
  · rfl

theorem Grown.setCursor (fs : FileSystem) (number cursor : Nat) :
    Grown fs (fs.setCursor number cursor) := by
  refine ⟨le_refl _, fun n hn => Or.inl ?_⟩
  rwa [FileSystem.setCursor, keys_update] at hn

theorem keys_followFile (source target : Path) (d : Dictionary Nat Descriptor) :
    (followFile source target d).keys = d.keys := by
  induction d with
  | nil => rfl
  | cons entry d ih =>
    obtain ⟨n, handle⟩ := entry
    simp only [followFile, List.map_cons] at ih ⊢
    split <;> simp only [Dictionary.keys_cons, ih]

theorem keys_followDir (source target : Path) (d : Dictionary Nat Descriptor) :
    (followDir source target d).2.keys = d.keys := by
  induction d with
  | nil => rfl
  | cons entry d ih =>
    obtain ⟨n, handle⟩ := entry
    rw [followDir]
    split
    · split
      · rfl
      · simp only [Dictionary.keys_cons, ih]
    · simp only [Dictionary.keys_cons, ih]

namespace Grown

theorem carryOut (fs : FileSystem) (move : Move) : Grown fs (fs.carryOut move).2 := by
  cases move with
  | none => exact refl fs
  | file source target =>
    rw [FileSystem.carryOut]
    have hsame := OnlyNodes.relink { fs with
      nodes := moveNode fs.nodes source.fileKey target.fileKey
      descriptors := followFile source target fs.descriptors } source target
    refine ⟨hsame.sameTable.next.ge, fun n hn => Or.inl ?_⟩
    rwa [hsame.descriptors, keys_followFile] at hn
  | dir source target =>
    rw [FileSystem.carryOut]
    rcases hfollow : followDir source target fs.descriptors with ⟨result, descriptors⟩
    have hkeys : descriptors.keys = fs.descriptors.keys := by
      rw [← keys_followDir source target fs.descriptors, hfollow]
    cases result with
    | error e => exact ⟨le_refl _, fun n hn => Or.inl (hkeys ▸ hn)⟩
    | ok =>
      have hsame := OnlyNodes.relink { fs with
        nodes := moveNodes source.dirKey target.dirKey fs.nodes
        descriptors := descriptors } source target
      refine ⟨hsame.sameTable.next.ge, fun n hn => Or.inl ?_⟩
      rwa [hsame.descriptors, hkeys] at hn

theorem rename (fs : FileSystem) (source target : String) :
    Grown fs (fs.rename source target).2 := by
  rcases rename_left fs source target with hleft | ⟨move, -, hleft⟩
  · rw [hleft]
    exact refl fs
  · rw [hleft]
    exact carryOut fs move

theorem read (fs : FileSystem) (number length : Nat) (position : Option Nat) :
    Grown fs (fs.read number length position).2 := by
  have houtcome := read_outcome fs number length position
  generalize fs.read number length position = outcome at houtcome ⊢
  cases houtcome with
  | stream => exact refl fs
  | refused => exact refl fs
  | missing d => exact setCursor fs number _
  | found d data times start bytes =>
    have hmoved := setCursor fs number (position.getD d.cursor)
    refine ⟨hmoved.next, fun n hn => hmoved.mem n ?_⟩
    rw [FileSystem.setCursor, keys_update] at hn
    exact hn

theorem write {number n : Nat} {bytes : ByteArray} {position : Option Nat}
    (hok : fs.write number bytes position = .ok (n, fs')) : Grown fs fs' := by
  cases (written_of_write hok).2 with
  | stdout => exact ⟨le_refl _, fun _ hn => Or.inl hn⟩
  | stderr => exact ⟨le_refl _, fun _ hn => Or.inl hn⟩
  | file d data times offset => exact (setCursor _ number _).after ⟨rfl, rfl⟩

theorem close {number : Nat} (hok : fs.close number = .ok fs') : Grown fs fs' := by
  rcases close_eq_ok_iff.1 hok with ⟨-, rfl⟩ | ⟨-, -, rfl⟩
  · exact refl _
  · refine ⟨le_refl _, fun n hn => Or.inl ?_⟩
    rw [Dictionary.mem_keys_iff, Dictionary.get?_remove] at hn
    rw [Dictionary.mem_keys_iff]
    split at hn
    · cases hn
    · exact hn

theorem addDescriptor (fs : FileSystem) (d : Descriptor) : Grown fs (fs.addDescriptor d).2 := by
  refine ⟨Nat.le_succ _, fun n hn => ?_⟩
  rw [FileSystem.addDescriptor, Dictionary.keys_put] at hn
  split at hn
  · exact Or.inl hn
  · exact (List.mem_append.1 hn).imp_right List.mem_singleton.1

theorem openLocal (mode : OpenMode) (fs : FileSystem) (p : Path) :
    Grown fs (FileSystem.openLocal mode fs p).2 := by
  have houtcome := openLocal_outcome mode fs p
  generalize FileSystem.openLocal mode fs p = outcome at houtcome ⊢
  cases houtcome with
  | uncreated => exact refl fs
  | refused e fs₁ hcreated => exact (OnlyNodes.createFor hcreated).sameTable.grown
  | dir fs₁ hcreated =>
    exact (addDescriptor fs₁ _).after (OnlyNodes.createFor hcreated).sameTable
  | emptied fs₁ data times hcreated =>
    have hsame := (OnlyNodes.createFor hcreated).sameTable
    exact (addDescriptor _ _).after ⟨hsame.descriptors, hsame.next⟩
  | file fs₁ data times hcreated =>
    exact (addDescriptor fs₁ _).after (OnlyNodes.createFor hcreated).sameTable

/-- What is fetched first does not touch the table. -/
theorem withFetched (mount : Option (Asset.Mount World)) (fs : FileSystem) (world : World)
    (text : String) {act : FileSystem → Path → Except Error α × FileSystem}
    (hact : ∀ fs p, Grown fs (act fs p).2) :
    Grown fs (FileSystem.withFetched mount fs world text act).2.1 := by
  rcases withFetched_left mount fs world text act with hleft | ⟨p, -, hleft | hleft⟩
  · rw [hleft]
    exact refl fs
  · rw [hleft]
    exact (OnlyNodes.populate mount fs world p).sameTable.grown
  · rw [hleft]
    exact (hact _ p).after (OnlyNodes.populate mount fs world p).sameTable

theorem settle {world : World} {result : Except Error FileSystem}
    (hok : ∀ fs', result = .ok fs' → Grown fs fs') :
    Grown fs (FileSystem.settle fs world result).2.1 := by
  rcases settle_left fs world result with hleft | ⟨fs', hresult, hleft⟩
  · rw [hleft]
    exact refl fs
  · rw [hleft]
    exact hok fs' hresult

/-- No operation brings a number into the table but the next one. -/
theorem perform (mount : Option (Asset.Mount World)) (fs : FileSystem) (world : World)
    (op : Operation) : Grown fs (FileSystem.perform mount fs world op).2.1 := by
  cases op with
  | openPath path mode => exact withFetched mount fs world path (openLocal mode)
  | stat path => exact (OnlyNodes.stat mount fs world path).sameTable.grown
  | readAll path => exact (OnlyNodes.readAll mount fs world path).sameTable.grown
  | close number => exact settle fun _ => close
  | read number length position => exact read fs number length position
  | write number data position =>
    rw [FileSystem.perform]
    split
    · next hwrite => exact write hwrite
    · exact refl fs
  | truncateDescriptor number length =>
    exact settle fun _ hok => (OnlyNodes.truncateDescriptor hok).sameTable.grown
  | truncate path length => exact settle fun _ hok => (OnlyNodes.truncate hok).sameTable.grown
  | makeDir path recursive => exact (OnlyNodes.makeDir fs path recursive).sameTable.grown
  | removeDir path => exact settle fun _ hok => (OnlyNodes.removeDir hok).sameTable.grown
  | unlink path => exact settle fun _ hok => (OnlyNodes.unlink hok).sameTable.grown
  | rename source target => exact rename fs source target
  | setTimes path accessed modified => exact settle fun _ hok => (OnlyNodes.setTimes hok).sameTable.grown
  | writeFile path data => exact (OnlyNodes.writeFile fs path data).sameTable.grown
  | chdir path => exact settle fun _ hok => (SameTable.chdir hok).grown
  | statDescriptor | readDir | contains | cwd | resolve => exact refl fs
  | takeStdout | takeStderr | clearOutput => exact ⟨le_refl _, fun _ hn => Or.inl hn⟩

end Grown

/-- The numbers up to the next one, and those in the table, are past the standard streams. -/
structure Numbered (fs : FileSystem) : Prop where
  next : firstDescriptor ≤ fs.nextDescriptor
  mem : ∀ n ∈ fs.descriptors.keys, firstDescriptor ≤ n

theorem Numbered.grown (h : Numbered fs) (hgrown : Grown fs fs') : Numbered fs' := by
  refine ⟨h.next.trans hgrown.next, fun n hn => ?_⟩
  rcases hgrown.mem n hn with hn | rfl
  · exact h.mem n hn
  · exact h.next

/-- No descriptor has the number of a standard stream. -/
theorem Reachable.numbered (h : Reachable fs) : Numbered fs := by
  induction h with
  | new clock => exact ⟨le_refl _, by simp [empty, Dictionary.keys]⟩
  | tick clock _ ih => exact ⟨ih.next, ih.mem⟩
  | step mount world op _ ih => exact ih.grown (Grown.perform mount _ world op)

end Workbench.FileSystem
