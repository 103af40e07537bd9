import Workbench.Proofs.FollowedDescriptors

set_option autoImplicit false

/-! # Descriptors whose file is gone

A descriptor of a file that was unlinked stays open on its path, and through it nothing can be read,
written, cut or looked at, as long as no file is at that path. Nothing brings a file there but what
is aimed at the path: writing it whole, creating it to open it, fetching it, or moving something to
it or to a directory above it. From then on the descriptor is on the file that came, since it holds
a path and no node. -/

namespace Workbench.FileSystem

variable {World α : Type} {v : View} {fs fs' : FileSystem} {op : Operation} {p q : Path} {n : Nat}
  {d : Descriptor}

/-- What is fetched from a mount, if there is one. -/
def fetchable (mount : Option (Asset.Mount World)) (p : Path) : Bool := mount.any (·.covers p)

/-- An operation may bring a file to a place. -/
def Operation.Fills (fetched : Path → Bool) (fs : FileSystem) (place : List String) :
    Operation → Prop
  | .openPath path mode => ∃ q, fs.resolve path = .ok q ∧ q.parts = place ∧
      (mode.create = true ∨ fetched q = true)
  | .stat path | .readAll path => ∃ q, fs.resolve path = .ok q ∧ q.parts = place ∧ fetched q = true
  | .writeFile path _ => ∃ q, fs.resolve path = .ok q ∧ q.parts = place
  | .rename _ target => ∃ t, fs.resolve target = .ok t ∧ t.parts <+: place
  | _ => False

/-- A run of operations that are allowed where they are carried out. -/
inductive Onward (allowed : (Path → Bool) → FileSystem → Operation → Prop) (fs : FileSystem) :
    FileSystem → Prop where
  | start : Onward allowed fs fs
  | tick {fs₁ : FileSystem} (clock : Time) : Onward allowed fs fs₁ →
      Onward allowed fs { fs₁ with clock := clock }
  | step {fs₁ : FileSystem} {World : Type} (mount : Option (Asset.Mount World)) (world : World)
      (op : Operation) : Onward allowed fs fs₁ → allowed (fetchable mount) fs₁ op →
      Onward allowed fs (fs₁.perform mount world op).2.1

theorem Onward.reachable {allowed : (Path → Bool) → FileSystem → Operation → Prop}
    (h : Onward allowed fs fs') (hfs : Reachable fs) : Reachable fs' := by
  induction h with
  | start => exact hfs
  | tick clock _ ih => exact .tick clock ih
  | step mount world op _ _ ih => exact .step mount world op ih

/-! ## Where no file is -/

/-- Changing a file that is there brings none to another place. -/
theorem setFile_none {contents : ByteArray × Times} (hfile : fs.file q = .ok contents)
    (hnone : fs.bytesAt p = none) (data : ByteArray) (times : Times) :
    (fs.setFile q data times).bytesAt p = none := by
  rw [bytesAt_setFile, if_neg]
  · exact hnone
  · intro hparts
    rw [← bytesAt_eq_of_parts fs hparts, file_eq_ok hfile] at hnone
    cases hnone

/-- Nodes may be put as long as no file is put at the path. -/
theorem tolerant_none (hp : p.parts ≠ []) : Tolerant (fun q _ => q.parts ≠ p.parts)
    fun fs fs' => fs.bytesAt p = none → fs'.bytesAt p = none where
  refl _ := id
  trans h h' := h' ∘ h
  putDir _ _ hnone := (bytesAt_putDir hp).trans hnone
  putFile fs q data hparts hnone := by rw [bytesAt_putFile hp, if_neg hparts, hnone]

/-- A path from which nothing is fetched is left without a file by what is fetched to others. -/
theorem withFetched_none (hp : p.parts ≠ []) (hnone : fs.bytesAt p = none)
    (mount : Option (Asset.Mount World)) (world : World) {text : String}
    (act : FileSystem → Path → Except Error α × FileSystem)
    (hfetch : ∀ q, fs.resolve text = .ok q → q.parts = p.parts → fetchable mount q = false)
    (hact : ∀ fs₁ q, fs.resolve text = .ok q → fs₁.bytesAt p = none →
      (act fs₁ q).2.bytesAt p = none) :
    (withFetched mount fs world text act).2.1.bytesAt p = none := by
  rcases withFetched_left mount fs world text act with hleft | ⟨q, hq, hleft⟩
  · rwa [hleft]
  have hpopulate : (populate mount fs world q).2.1.bytesAt p = none := by
    refine (tolerant_none hp).populate (fun m bytes hm _ _ hcovers _ hparts => ?_) hnone
    have hfetchable := hfetch q hq hparts
    rw [hm, fetchable, Option.any_some, hcovers] at hfetchable
    cases hfetchable
  rcases hleft with hleft | hleft
  · rwa [hleft]
  · rw [hleft]
    exact hact _ q hq hpopulate

theorem readLocal_none (hnone : fs.bytesAt p = none) : (fs.readLocal q).2.bytesAt p = none := by
  rw [bytesAt_readLocal, hnone]

/-- A file that is opened without being created was there before. -/
theorem openLocal_none (hp : p.parts ≠ []) (hnone : fs.bytesAt p = none) {mode : OpenMode}
    (hq : q.parts = p.parts → mode.create = false) :
    (openLocal mode fs q).2.bytesAt p = none := by
  refine (tolerant_none hp).openLocal (fun hcreate _ _ hparts => ?_)
    (fun fs₁ data times times' hfile _ hnone₁ => setFile_none hfile hnone₁ _ times')
    (fun fs₁ d hnone₁ => hnone₁) hnone
  rw [hq hparts] at hcreate
  cases hcreate

theorem write_none (hnone : fs.bytesAt p = none) {number m : Nat} {bytes : ByteArray}
    {position : Option Nat} (hok : fs.write number bytes position = .ok (m, fs')) :
    fs'.bytesAt p = none := by
  cases (written_of_write hok).2 with
  | stdout => exact hnone
  | stderr => exact hnone
  | file d data times offset _ _ _ hfile => exact setFile_none hfile hnone _ _

theorem truncateDescriptor_none (hnone : fs.bytesAt p = none) {number length : Nat}
    (hok : fs.truncateDescriptor number length = .ok fs') : fs'.bytesAt p = none := by
  obtain ⟨d, data, times, -, -, -, hfile, rfl⟩ := truncateDescriptor_eq_ok_iff.1 hok
  exact setFile_none hfile hnone _ _

theorem truncate_none (hnone : fs.bytesAt p = none) {text : String} {length : Nat}
    (hok : fs.truncate text length = .ok fs') : fs'.bytesAt p = none := by
  obtain ⟨q, data, times, -, -, hfile, rfl⟩ := truncate_eq_ok_iff.1 hok
  exact setFile_none hfile hnone _ _

theorem unlink_none (hp : p.parts ≠ []) (hnone : fs.bytesAt p = none) {text : String}
    (hok : fs.unlink text = .ok fs') : fs'.bytesAt p = none := by
  obtain ⟨q, -, -, rfl⟩ := unlink_eq_ok_iff.1 hok
  rw [bytesAt_unlinkName hp]
  by_cases hkey : q.fileKey = p.fileKey
  · unfold bytesAt
    rw [remove, Dictionary.get?_remove, if_pos hkey]
  · refine (bytesAt_congr ?_).trans hnone
    rw [remove, Dictionary.get?_remove, if_neg hkey]

theorem writeFile_none (hp : p.parts ≠ []) (hnone : fs.bytesAt p = none) {text : String}
    (hq : ∀ q, fs.resolve text = .ok q → q.parts ≠ p.parts) (data : ByteArray) :
    (fs.writeFile text data).2.bytesAt p = none :=
  (tolerant_none hp).writeFile hq hnone

/-- A move brings no file to where it takes a path at which there was none, unless it is to that
    path or above it. -/
theorem Movable.follow_none {s t : Path} {node : Node} (hmovable : Movable v s t node)
    {place : List String} (hnone : (v place).any Node.isFile = false)
    (haside : ¬ t.parts <+: place) :
    (v.move s.parts t.parts
      ((if node.isDir then Move.dir s t else .file s t).follow place)).any Node.isFile = false := by
  by_cases hpre : s.parts <+: place
  · cases hkind : node.isDir with
    | true =>
      obtain ⟨rest, rfl⟩ := hpre
      rw [if_pos rfl, Move.follow, if_pos (List.prefix_append s.parts rest), List.drop_left,
        View.move_of_target]
      exact hnone
    | false =>
      have hne : place ≠ s.parts := by
        rintro rfl
        rw [hmovable.there] at hnone
        cases node with
        | file data times => cases hnone
        | dir names times => cases hkind
      rw [if_neg Bool.false_ne_true, Move.follow, if_neg hne, View.move_of_source v hpre haside]
      rfl
  · have hstays : (if node.isDir then Move.dir s t else .file s t).follow place = place := by
      split
      · exact if_neg hpre
      · exact if_neg fun heq => hpre (by rw [heq])
    rw [hstays, View.move_of_other v hpre haside]
    exact hnone

/-- No operation but a move brings a file to a path at which there was none, unless it is aimed at
    that path. -/
theorem perform_none_of_stays (hp : p.parts ≠ []) (hnone : fs.bytesAt p = none)
    (mount : Option (Asset.Mount World)) (world : World) {op : Operation}
    (haside : ¬ op.Fills (fetchable mount) fs p.parts)
    (hstays : ∀ source target, op ≠ .rename source target) :
    (fs.perform mount world op).2.1.bytesAt p = none := by
  -- what is refused brings nothing, and what is granted leaves the path where it is
  have hsettle : ∀ {result : Except Error FileSystem},
      (∀ fs', result = .ok fs' → fs'.bytesAt p = none) →
      (settle fs world result).2.1.bytesAt p = none :=
    fun hok => (tolerant_none hp).settle (fun fs' hresult _ => hok fs' hresult) hnone
  cases op with
  | rename source target => exact absurd rfl (hstays source target)
  | openPath path mode =>
    refine withFetched_none hp hnone mount world (openLocal mode) (fun r hr hparts => ?_)
      fun fs₁ r hr hnone₁ => openLocal_none hp hnone₁ fun hparts => ?_
    · exact Bool.not_eq_true _ ▸ fun hcovered => haside ⟨r, hr, hparts, Or.inr hcovered⟩
    · exact Bool.not_eq_true _ ▸ fun hcreate => haside ⟨r, hr, hparts, Or.inl hcreate⟩
  | stat path =>
    refine withFetched_none hp hnone mount world statLocal (fun r hr hparts => ?_)
      fun fs₁ r _ hnone₁ => ?_
    · exact Bool.not_eq_true _ ▸ fun hcovered => haside ⟨r, hr, hparts, hcovered⟩
    · rw [statLocal_left]
      exact hnone₁
  | readAll path =>
    refine withFetched_none hp hnone mount world readLocal (fun r hr hparts => ?_)
      fun fs₁ r _ hnone₁ => readLocal_none hnone₁
    exact Bool.not_eq_true _ ▸ fun hcovered => haside ⟨r, hr, hparts, hcovered⟩
  | writeFile path data =>
    exact writeFile_none hp hnone (fun r hr hparts => haside ⟨r, hr, hparts⟩) data
  | read number length position =>
    exact (bytesAt_read number length position).trans hnone
  | write number data position =>
    rw [FileSystem.perform]
    split
    · next hwrite => exact write_none hnone hwrite
    · exact hnone
  | makeDir path recursive =>
    exact (bytesAt_makeDir hp path recursive).trans hnone
  | close number =>
    refine hsettle fun fs' hok => ?_
    rcases close_eq_ok_iff.1 hok with ⟨-, rfl⟩ | ⟨-, -, rfl⟩ <;> exact hnone
  | chdir path =>
    refine hsettle fun fs' hok => ?_
    obtain ⟨r, -, -, rfl⟩ := chdir_eq_ok_iff.1 hok
    exact hnone
  | truncateDescriptor number length =>
    exact hsettle fun _ => truncateDescriptor_none hnone
  | truncate path length =>
    exact hsettle fun _ => truncate_none hnone
  | removeDir path =>
    exact hsettle fun _ hok => (bytesAt_removeDir hp hok).trans hnone
  | unlink path =>
    exact hsettle fun _ => unlink_none hp hnone
  | setTimes path accessed modified =>
    exact hsettle fun _ hok => (bytesAt_setTimes hok).trans hnone
  | statDescriptor | readDir | contains | cwd | resolve | takeStdout | takeStderr | clearOutput =>
    exact hnone

namespace Shows

/-- Renaming brings no file to where it takes such a path either. -/
theorem rename_none (h : fs.Shows v) (hp : p.parts ≠ []) (hnone : fs.bytesAt p = none)
    {source target : String} (htarget : ∀ t, fs.resolve target = .ok t → ¬ t.parts <+: p.parts)
    (hq : q.parts = Operation.follow fs (.rename source target) p.parts) :
    (fs.rename source target).2.bytesAt q = none := by
  have hcases := h.rename_cases source target
  rw [Operation.follow] at hq
  generalize fs.rename source target = outcome at hcases ⊢
  cases hcases with
  | refused e hplan =>
    rw [hplan] at hq
    rw [bytesAt_eq_of_parts fs hq, hnone]
  | idle s t _ _ hplan _ =>
    rw [hplan] at hq
    rw [bytesAt_eq_of_parts fs hq, hnone]
  | moved s t node nodes table _ ht hmovable hplan hnodes _ =>
    rw [hplan] at hq
    dsimp only at hq ⊢
    have hfile : (v p.parts).any Node.isFile = false := by
      rw [← h.table.isFile_eq, isFile_eq_isSome, hnone]
      rfl
    have hqne : q.parts ≠ [] := by
      rw [hq]
      exact Move.follow_ne_nil hmovable.target_ne (Move.kind node s t) hp
    have hmoved := hmovable.follow_none hfile (htarget t ht)
    rw [← hq] at hmoved
    have htree : Represents (FileSystem.nodes { fs with nodes := nodes, descriptors := table })
      (v.move s.parts t.parts) := hnodes
    have harrived := (htree.isFile_eq q).trans hmoved
    rw [isFile_eq_isSome, Option.isSome_eq_false_iff, Option.isNone_iff_eq_none] at harrived
    rw [relink, bytesAt_link hqne, bytesAt_unlinkName hqne, harrived]

/-- No operation brings a file to where a path is taken at which there was none, unless it is aimed
    at that path. -/
theorem perform_none (h : fs.Shows v) (hp : p.parts ≠ []) (hnone : fs.bytesAt p = none)
    (mount : Option (Asset.Mount World)) (world : World) (op : Operation)
    (haside : ¬ op.Fills (fetchable mount) fs p.parts) (hq : q.parts = op.follow fs p.parts) :
    (fs.perform mount world op).2.1.bytesAt q = none := by
  cases op with
  | rename source target =>
    exact h.rename_none hp hnone (fun t ht hpre => haside ⟨t, ht, hpre⟩) hq
  | _ =>
    rw [bytesAt_eq_of_parts _ (show q.parts = p.parts from hq)]
    exact perform_none_of_stays hp hnone mount world haside fun _ _ => Operation.noConfusion

end Shows

/-! ## Descriptors without a file -/

/-- An operation may not close a descriptor. -/
def Operation.Spares (n : Nat) (_ : Path → Bool) (_ : FileSystem) (op : Operation) : Prop :=
  op ≠ .close n

/-- An operation may not close a descriptor either, nor bring a file to the path that it holds. -/
def Operation.Shuns (n : Nat) (fetched : Path → Bool) (fs : FileSystem) (op : Operation) : Prop :=
  op ≠ .close n ∧ ∀ d, fs.descriptors.get? n = some d → ¬ op.Fills fetched fs d.path.parts

/-- A file is not there for the descriptor that is open on its path. -/
structure Stale (fs : FileSystem) (n : Nat) (d : Descriptor) : Prop where
  found : fs.descriptors.get? n = some d
  isDir : d.isDir = false
  absent : fs.isFile d.path = false

/-- A run in which a descriptor is not closed leaves it open in its mode. -/
theorem Onward.kept (hrun : Onward (Operation.Spares n) fs fs') (h : Reachable fs)
    (hd : fs.descriptors.get? n = some d) :
    ∃ d', fs'.descriptors.get? n = some d' ∧ d'.mode = d.mode ∧ d'.isDir = d.isDir := by
  induction hrun with
  | start => exact ⟨d, hd, rfl, rfl⟩
  | tick clock _ ih => exact ih
  | step mount world op hrun hopen ih =>
    obtain ⟨d₁, hd₁, hmode, hisDir⟩ := ih
    have h₁ := hrun.reachable h
    obtain ⟨v, hv⟩ := h₁.shows
    obtain ⟨d₂, hd₂⟩ := h₁.seated.kept (hv.tableStep mount world op) hd₁ hopen
    exact ⟨d₂, hd₂.found, hd₂.mode.trans hmode, hd₂.isDir.trans hisDir⟩

/-- One operation that is not aimed at the path of a stale descriptor leaves it stale. -/
theorem Stale.step (hstale : Stale fs n d) (h : Reachable fs) (mount : Option (Asset.Mount World))
    (world : World) (hop : op.Shuns n (fetchable mount) fs) :
    ∃ d', Stale (fs.perform mount world op).2.1 n d' := by
  obtain ⟨v, hv⟩ := h.shows
  obtain ⟨d', hd'⟩ := h.seated.kept (hv.tableStep mount world op) hstale.found hop.1
  have hp := (h.seated.suited n d hstale.found).file hstale.isDir
  have hnone := hstale.absent
  rw [isFile_eq_isSome, Option.isSome_eq_false_iff, Option.isNone_iff_eq_none] at hnone
  have hnone' := hv.perform_none hp hnone mount world op (hop.2 d hstale.found) hd'.place
  refine ⟨d', hd'.found, hd'.isDir.trans hstale.isDir, ?_⟩
  rw [isFile_eq_isSome, hnone']
  rfl

theorem Onward.stale (hrun : Onward (Operation.Shuns n) fs fs') (h : Reachable fs)
    (hstale : Stale fs n d) : ∃ d', Stale fs' n d' := by
  induction hrun with
  | start => exact ⟨d, hstale⟩
  | tick clock _ ih =>
    obtain ⟨d₁, hfound, hisDir, habsent⟩ := ih
    exact ⟨d₁, hfound, hisDir, habsent⟩
  | step mount world op hrun hop ih =>
    obtain ⟨d₁, hd₁⟩ := ih
    exact hd₁.step (hrun.reachable h) mount world hop

/-- Nothing can be done through a stale descriptor but to close it. -/
theorem Stale.refused (hstale : Stale fs n d) (h : Reachable fs) (hop : op.number? = some n)
    (hopen : op ≠ .close n) (mount : Option (Asset.Mount World)) (world : World) :
    (∃ e, (fs.perform mount world op).1 = .error e) ∧
      (fs.perform mount world op).2.1.nodes = fs.nodes := by
  have hmem := (Dictionary.mem_keys_iff fs.descriptors n).2 (by rw [hstale.found]; rfl)
  have hn := h.numbered.mem n hmem
  have hnofile : ∀ contents, fs.file d.path ≠ .ok contents := by
    intro contents hfile
    have := hstale.absent
    rw [isFile_of_file hfile] at this
    cases this
  cases op with
  | close number =>
    obtain rfl := Option.some.inj hop
    exact absurd rfl hopen
  | read number length position =>
    obtain rfl := Option.some.inj hop
    show (∃ e, (fs.read number length position).1.map Reply.chunk = .error e) ∧
      (fs.read number length position).2.nodes = fs.nodes
    have houtcome := read_outcome fs number length position
    generalize fs.read number length position = outcome at houtcome ⊢
    cases houtcome with
    | stream hzero =>
      rw [hzero] at hn
      exact absurd hn (by decide)
    | refused e => exact ⟨⟨e, rfl⟩, rfl⟩
    | missing d₁ e => exact ⟨⟨e, rfl⟩, rfl⟩
    | found d₁ data times start bytes hreadable hfile =>
      cases hstale.found.symm.trans (readableDescriptor_eq_ok_iff.1 hreadable).1
      exact absurd hfile (hnofile _)
  | write number bytes position =>
    obtain rfl := Option.some.inj hop
    rw [perform]
    split
    · next hwrite =>
      cases (written_of_write hwrite).2 with
      | stdout hstream =>
        rw [hstream] at hn
        exact absurd hn (by decide)
      | stderr hstream =>
        rw [hstream] at hn
        exact absurd hn (by decide)
      | file d₁ data times offset _ hd₁ _ hfile =>
        cases hstale.found.symm.trans hd₁
        exact absurd hfile (hnofile _)
    · exact ⟨⟨_, rfl⟩, rfl⟩
  | statDescriptor number =>
    obtain rfl := Option.some.inj hop
    obtain ⟨v, hv⟩ := h.shows
    have hp := (h.seated.suited number d hstale.found).file hstale.isDir
    have hnone : fs.nodes.get? d.path.fileKey = none := by
      rw [hv.table.get?_fileKey hp, Option.filter_eq_none_iff]
      intro node hnode hisFile
      have habsent := hstale.absent
      rw [hv.table.isFile_eq, hnode, Option.any_some, hisFile] at habsent
      cases habsent
    refine ⟨⟨.notFound d.path.toString, ?_⟩, rfl⟩
    rw [perform, statDescriptor_eq hn hstale.found, hstale.isDir, Path.key_false, hnone]
    rfl
  | truncateDescriptor number length =>
    obtain rfl := Option.some.inj hop
    rw [perform]
    cases htruncate : fs.truncateDescriptor number length with
    | error e => exact ⟨⟨e, rfl⟩, rfl⟩
    | ok fs' =>
      obtain ⟨d₁, data, times, hd₁, -, -, hfile, -⟩ := truncateDescriptor_eq_ok_iff.1 htruncate
      cases hstale.found.symm.trans hd₁
      exact absurd hfile (hnofile _)
  | _ => cases hop

/-- Unlinking the file of a descriptor makes it stale. -/
theorem Reachable.stale_of_unlink (h : Reachable fs) (hd : fs.descriptors.get? n = some d)
    (hfile : d.isDir = false) {path : String} (hnames : fs.Names path d.path)
    (hunlink : fs.unlink path = .ok fs') : Stale fs' n d := by
  obtain ⟨v, hv⟩ := h.shows
  refine ⟨by rw [(OnlyNodes.unlink hunlink).descriptors, hd], hfile, ?_⟩
  obtain ⟨q, v', hq, hv', hgone, -⟩ := hv.unlink hunlink
  obtain ⟨r, hr, hparts⟩ := hnames
  obtain rfl := Except.ok.inj (hq.symm.trans hr)
  rw [hv'.table.isFile_eq, ← hparts, hgone]
  rfl

/-- What is shown through a descriptor is the file at its path. -/
theorem statDescriptor_of_file (hn : firstDescriptor ≤ n) (hd : fs.descriptors.get? n = some d)
    (hdir : d.isDir = false) {data : ByteArray} {times : Times}
    (hfile : fs.file d.path = .ok (data, times)) :
    fs.statDescriptor n = .ok (statOf (.file data times)) := by
  obtain ⟨times', hget⟩ := bytesAt_eq_some_iff.1 (file_eq_ok hfile)
  rw [FileSystem.file, hget] at hfile
  cases hfile
  rw [statDescriptor_eq hn hd, hdir, Path.key_false, hget]

/-- A descriptor whose file was unlinked stays open, but nothing can be done through it while no file
    is at the path that it holds, and no file comes to be there unless an operation is aimed at that
    path. The file that comes is the one that is then shown. -/
theorem Reachable.unlinked_descriptor (h : Reachable fs) (hd : fs.descriptors.get? n = some d)
    (hfile : d.isDir = false) {path : String} (hnames : fs.Names path d.path)
    {mount : Option (Asset.Mount World)} {world : World} {reply : Reply}
    (hunlink : (fs.perform mount world (.unlink path)).1 = .ok reply)
    (hrun : Onward (Operation.Spares n) (fs.perform mount world (.unlink path)).2.1 fs') :
    ∃ d', fs'.descriptors.get? n = some d' ∧ d'.mode = d.mode ∧ d'.isDir = false ∧
      (fs'.isFile d'.path = false → ∀ {World : Type} (mount : Option (Asset.Mount World))
        (world : World) (op : Operation), op.number? = some n → op ≠ .close n →
        (∃ e, (fs'.perform mount world op).1 = .error e) ∧
          (fs'.perform mount world op).2.1.nodes = fs'.nodes) ∧
      (∀ data times, fs'.file d'.path = .ok (data, times) →
        fs'.statDescriptor n = .ok (statOf (.file data times))) ∧
      (Onward (Operation.Shuns n) (fs.perform mount world (.unlink path)).2.1 fs' →
        fs'.isFile d'.path = false) := by
  have h₁ := h.step mount world (.unlink path)
  rw [perform] at hunlink hrun h₁ ⊢
  cases hresult : fs.unlink path with
  | error e =>
    rw [hresult] at hunlink
    cases hunlink
  | ok fs₁ =>
    rw [hresult] at hrun h₁
    have hstale := h.stale_of_unlink hd hfile hnames hresult
    obtain ⟨d', hd', hmode, hisDir⟩ := hrun.kept h₁ hstale.found
    rw [hfile] at hisDir
    have h' := hrun.reachable h₁
    have hn := h'.numbered.mem n ((Dictionary.mem_keys_iff _ _).2 (by rw [hd']; rfl))
    refine ⟨d', hd', hmode, hisDir, fun habsent World mount world op hop hopen => ?_,
      fun data times => statDescriptor_of_file hn hd' hisDir, fun hshuns => ?_⟩
    · exact Stale.refused ⟨hd', hisDir, habsent⟩ h' hop hopen mount world
    · obtain ⟨d'', hstale'⟩ := hshuns.stale h₁ hstale
      obtain rfl := Option.some.inj (hd'.symm.trans hstale'.found)
      exact hstale'.absent

/-- A file that is open for reading and writing, in a directory. -/
def opened : FileSystem :=
  (performAll none (empty ⟨0, 0⟩) () [.writeFile "/a/f" "old".toUTF8,
    .openPath "/a/f" (.ofBits 0o2)]).2.1

/-- What is open on it. -/
def openedDescriptor : Descriptor :=
  ⟨⟨["a", "f"], false, by decide, by decide⟩, .ofBits 0o2, 0, false⟩

/-- The file is unlinked, another is written beside it, and the directory is moved: the descriptor
    is open still, and nothing can be read through it. -/
theorem unlinked_descriptor_moved :
    ∃ fs d, fs = (performAll none opened () [.unlink "/a/f", .writeFile "/a/g" "new".toUTF8,
        .rename "/a" "/b"]).2.1 ∧ fs.descriptors.get? 3 = some d ∧ d.path.parts = ["b", "f"] ∧
      fs.isFile d.path = false ∧ ∃ e, (fs.perform none () (.read 3 8 none)).1 = .error e := by
  have hreachable : Reachable opened := .performAll none _ () (.new ⟨0, 0⟩)
  have hnames : opened.Names "/a/f" openedDescriptor.path :=
    ⟨openedDescriptor.path, by decide +kernel, rfl⟩
  set unlinked := (opened.perform none () (.unlink "/a/f")).2.1
  set written := (unlinked.perform none () (.writeFile "/a/g" "new".toUTF8)).2.1
  set moved := (written.perform none () (.rename "/a" "/b")).2.1
  have hspares : Onward (Operation.Spares 3) unlinked moved :=
    .step none () _ (.step none () _ .start (fun heq => by cases heq)) (fun heq => by cases heq)
  have hshuns : Onward (Operation.Shuns 3) unlinked moved := by
    refine .step none () _ (.step none () _ .start ⟨fun heq => (by cases heq), ?_⟩)
      ⟨fun heq => (by cases heq), ?_⟩
    · rintro d hd ⟨q, hq, hparts⟩
      have hd' : unlinked.descriptors.get? 3 = some openedDescriptor := by decide +kernel
      have hq' : unlinked.resolve "/a/g" = .ok ⟨["a", "g"], false, by decide, by decide⟩ := by
        decide +kernel
      obtain rfl := Option.some.inj (hd'.symm.trans hd)
      obtain rfl := Except.ok.inj (hq'.symm.trans hq)
      exact absurd hparts (by decide)
    · rintro d hd ⟨t, ht, hpre⟩
      have hd' : written.descriptors.get? 3 = some openedDescriptor := by decide +kernel
      have ht' : written.resolve "/b" = .ok ⟨["b"], false, by decide, by decide⟩ := by
        decide +kernel
      obtain rfl := Option.some.inj (hd'.symm.trans hd)
      obtain rfl := Except.ok.inj (ht'.symm.trans ht)
      exact absurd hpre (by decide)
  have hdescriptor : opened.descriptors.get? 3 = some openedDescriptor := by decide +kernel
  have hunlink : (opened.perform none () (.unlink "/a/f")).1 = .ok .done := rfl
  obtain ⟨d, hd, -, -, hrefused, -, habsent⟩ :=
    Reachable.unlinked_descriptor hreachable hdescriptor rfl hnames hunlink hspares
  have hplace : d.path.parts = ["b", "f"] := by
    have hmoved : moved.descriptors.get? 3 =
        some { openedDescriptor with path := ⟨["b", "f"], false, by decide, by decide⟩ } := by
      decide +kernel
    obtain rfl := Option.some.inj (hmoved.symm.trans hd)
    rfl
  have hgone := habsent hshuns
  refine ⟨moved, d, rfl, hd, hplace, hgone, ?_⟩
  exact (hrefused hgone none () (.read 3 8 none) rfl fun heq => by cases heq).1

/-- A file that is written to the path of a stale descriptor is read through it. -/
theorem unlinked_descriptor_revived :
    ¬ ∀ (fs fs' : FileSystem) (n : Nat) (d : Descriptor) (path : String), Reachable fs →
      fs.descriptors.get? n = some d → d.isDir = false → fs.Names path d.path →
      (fs.perform none () (.unlink path)).1 = .ok .done →
      Onward (Operation.Spares n) (fs.perform none () (.unlink path)).2.1 fs' →
      ∀ op, op.number? = some n → op ≠ .close n → ∃ e, (fs'.perform none () op).1 = .error e := by
  intro hclaim
  have hreachable : Reachable opened := .performAll none _ () (.new ⟨0, 0⟩)
  set unlinked := (opened.perform none () (.unlink "/a/f")).2.1
  set written := (unlinked.perform none () (.writeFile "/a/f" "new".toUTF8)).2.1
  have hrun : Onward (Operation.Spares 3) unlinked written :=
    .step none () _ .start fun heq => by cases heq
  obtain ⟨e, he⟩ := hclaim opened written 3 openedDescriptor "/a/f" hreachable
    (by decide +kernel) rfl ⟨openedDescriptor.path, by decide +kernel, rfl⟩ rfl hrun
    (.read 3 8 none) rfl fun heq => by cases heq
  have hread : (written.perform none () (.read 3 8 none)).1 = .ok (.chunk "new".toUTF8) := rfl
  rw [hread] at he
  cases he

end Workbench.FileSystem
