import Workbench.Proofs.Operations

set_option autoImplicit false

/-! # Fetching, and every operation

Opening, looking at and reading a path begin with what a mount yields for it, if nothing is there. A
fetched file is put at its path with all directories above it, or not at all. From there on the
operation is a local one. So every operation is sound from where it begins: the file system as it
was, or as it is once one asset was fetched. -/

namespace Workbench.FileSystem

variable {World α : Type} {v : View} {fs fs' : FileSystem}

/-- A file was put where nothing was, with those of the directories above it that were missing. Each
    of these directories has the next name of the path, no name is lost, and nothing else changed.
    -/
structure Populated (fs : FileSystem) (p : Path) (bytes : ByteArray)
    (nodes : Dictionary String Node) : Prop where
  noFile : fs.nodes.get? p.fileKey = none
  noDir : fs.nodes.get? p.dirKey = none
  file : nodes.get? p.fileKey = some (.file bytes (.stamp fs.clock))
  above : ∀ n (hn : n < p.parts.length), nodes.get? (p.above n).dirKey = some
    (((fs.nodes.get? (p.above n).dirKey).getD (.emptyDir fs.clock)).addName fs.clock p.parts[n])
  others : ∀ key, key ≠ p.fileKey → (∀ n < p.parts.length, key ≠ (p.above n).dirKey) →
    nodes.get? key = fs.nodes.get? key

/-- Strictly above a path are the directories of its first components. -/
theorem exists_above_eq {p : Path} {place : List String} (hp : place <+: p.parts)
    (hne : place ≠ p.parts) : ∃ n, n < p.parts.length ∧ place = (p.above n).parts :=
  ⟨place.length, lt_of_le_of_ne hp.length_le fun heq => hne (hp.eq_of_length heq),
    List.prefix_iff_eq_take.1 hp⟩

theorem above_parts_ne {p : Path} {n : Nat} (hn : n < p.parts.length) :
    (p.above n).parts ≠ p.parts := by
  intro heq
  have hlength := congrArg List.length heq
  rw [Path.above, List.length_take] at hlength
  omega

/-- Where a path can be passed, there are directories at most strictly above it. -/
theorem View.Passable.isDir_above {p : Path} (hpass : v.Passable p.parts.dropLast)
    (hp : p.parts ≠ []) {place : List String} (hplace : place <+: p.parts) (hne : place ≠ p.parts)
    {node : Node} (hnode : v place = some node) : node.isDir = true := by
  obtain ⟨d, name, hparts⟩ := exists_concat hp
  rw [hparts, List.prefix_concat_iff, ← hparts, or_iff_right hne] at hplace
  rw [hparts, List.dropLast_concat] at hpass
  exact hpass place hplace node hnode

/-- A directory strictly above a path has the key of one of the directories of its components. -/
theorem exists_above_key {p q : Path} {key : String} {node : Node} (hq : q.key node.isDir = key)
    (hdir : node.isDir = true) (hpre : q.parts <+: p.parts) (hne : q.parts ≠ p.parts) :
    ∃ n, n < p.parts.length ∧ key = (p.above n).dirKey := by
  obtain ⟨n, hn, heq⟩ := exists_above_eq hpre hne
  refine ⟨n, hn, ?_⟩
  rw [← hq, hdir, Path.key_true, Path.dirKey_inj, heq]

/-- Putting a file on a trail changes no other keys than that of the file and those of the
    directories above it. -/
theorem Shows.get?_beside_trail (h : fs.Shows v) {p : Path} (hp : p.parts ≠ [])
    (hfree : v p.parts = none) (hpass : v.Passable p.parts.dropLast) {bytes : ByteArray}
    {nodes : Dictionary String Node}
    (h' : (fs.withNodes nodes).Shows
      ((v.trail fs.clock p.parts).set p.parts (some (.file bytes (.stamp fs.clock))))) {key : String}
    (hfile : key ≠ p.fileKey) (hkey : ∀ n < p.parts.length, key ≠ (p.above n).dirKey) :
    nodes.get? key = fs.nodes.get? key := by
  have hset : ∀ place, place ≠ p.parts →
      (v.trail fs.clock p.parts).set p.parts (some (.file bytes (.stamp fs.clock))) place =
        v.trail fs.clock p.parts place := fun place hplace => if_neg hplace
  have haside : ∀ {q : Path} {node : Node}, q.key node.isDir = key → node.isDir = true →
      q.parts ≠ p.parts → ¬ q.parts <+: p.parts := by
    intro q node hq hdir hne hpre
    obtain ⟨n, hn, heq⟩ := exists_above_key hq hdir hpre hne
    exact hkey n hn heq
  ext node
  rw [h'.table.found, h.table.found]
  constructor
  · rintro ⟨q, hq, hnode⟩
    by_cases hne : q.parts = p.parts
    · rw [hne, View.set, if_pos rfl, Option.some.injEq] at hnode
      refine (hfile ?_).elim
      rw [← hq, ← hnode]
      exact Path.fileKey_inj.2 hne
    · rw [hset _ hne] at hnode
      by_cases hpre : q.parts <+: p.parts
      · have hdir := View.isDir_of_trail fs.clock hpre
          (fun node => hpass.isDir_above hp hpre hne) hnode
        exact absurd hpre (haside hq hdir hne)
      · rw [View.trail_aside v _ hpre] at hnode
        exact ⟨q, hq, hnode⟩
  · rintro ⟨q, hq, hnode⟩
    have hne : q.parts ≠ p.parts := by
      intro heq
      rw [heq, hfree] at hnode
      cases hnode
    refine ⟨q, hq, (hset _ hne).trans ?_⟩
    by_cases hpre : q.parts <+: p.parts
    · exact absurd hpre (haside hq (hpass.isDir_above hp hpre hne hnode) hne)
    · exact (View.trail_aside v _ hpre).trans hnode

/-- Putting a file on a trail populates its path. -/
theorem Shows.populated (h : fs.Shows v) {p : Path} (hp : p.parts ≠ [])
    (hfree : v p.parts = none) (hpass : v.Passable p.parts.dropLast) {bytes : ByteArray}
    {nodes : Dictionary String Node}
    (h' : (fs.withNodes nodes).Shows
      ((v.trail fs.clock p.parts).set p.parts (some (.file bytes (.stamp fs.clock))))) :
    Populated fs p bytes nodes := by
  constructor
  case noFile =>
    rw [h.table.get?_fileKey hp, hfree]
    rfl
  case noDir =>
    rw [h.table.get?_dirKey, hfree]
    rfl
  case file => exact (h'.table.found _ _).2 ⟨p, rfl, if_pos rfl⟩
  case above =>
    intro n hn
    have hpre : (p.above n).parts <+: p.parts := List.take_prefix n p.parts
    have hne := above_parts_ne hn
    have hhead : (p.parts.drop (p.above n).parts.length).head? = some p.parts[n] := by
      rw [Path.above, List.length_take, Nat.min_eq_left hn.le, List.head?_drop,
        List.getElem?_eq_getElem hn]
    have hold : fs.nodes.get? (p.above n).dirKey = v (p.above n).parts := by
      rw [h.table.get?_dirKey]
      cases hv : v (p.above n).parts with
      | none => rfl
      | some node => rw [Option.filter_some, if_pos (hpass.isDir_above hp hpre hne hv)]
    rw [hold, h'.table.get?_dirKey, View.set, if_neg hne, View.trail, if_pos hpre]
    dsimp only
    rw [hhead, Option.elim_some, Option.filter_some, if_pos]
    rw [Node.isDir_addName]
    exact View.isDir_getD_emptyDir fs.clock fun node => hpass.isDir_above hp hpre hne
  case others => exact fun key => h.get?_beside_trail hp hfree hpass h'

/-! ## Populating a path -/

/-- An asset of a mount was fetched to a path where nothing was. -/
structure Fetched (mount : Asset.Mount World) (fs : FileSystem) (world : World) (p : Path)
    (bytes : ByteArray) (nodes : Dictionary String Node) (world' : World) : Prop where
  spelled : p.trailing = false
  covered : mount.covers p = true
  answered : mount.fetch world p.toString = (.ok bytes, world')
  populated : Populated fs p bytes nodes

/-- A path is populated as a whole, or nothing changes. -/
theorem Shows.populate (h : fs.Shows v) (mount : Option (Asset.Mount World)) (world : World)
    (p : Path) :
    (∃ result world', populate mount fs world p = (result, fs, world')) ∨
    ∃ m bytes nodes world', mount = some m ∧ Fetched m fs world p bytes nodes world' ∧
      populate mount fs world p = (.ok (), fs.withNodes nodes, world') ∧
      ∃ v', (fs.withNodes nodes).Shows v' := by
  unfold FileSystem.populate
  split
  · exact Or.inl ⟨_, _, rfl⟩
  next hfree =>
  cases mount with
  | none => exact Or.inl ⟨_, _, rfl⟩
  | some m =>
    dsimp only
    split
    · exact Or.inl ⟨_, _, rfl⟩
    next hcovered =>
    rw [Bool.or_eq_true, not_or, Bool.not_eq_true, Bool.not_eq_true', Bool.not_eq_false]
      at hcovered
    obtain ⟨htrailing, hcovers⟩ := hcovered
    rw [h.table.find?_eq, htrailing, if_neg Bool.false_ne_true, Bool.not_eq_true,
      Option.isSome_eq_false_iff, Option.isNone_iff_eq_none] at hfree
    have hp : p.parts ≠ [] := fun hp => Bool.false_ne_true (htrailing ▸ p.rootTrails hp)
    split
    · next bytes world' hfetch =>
      rcases h.placeFile (fun node hv => absurd (hfree.symm.trans hv) (by simp)) bytes with
        ⟨hpass, nodes, hplaced, hshows⟩ | ⟨e, hrefused⟩
      · rw [hplaced]
        exact Or.inr ⟨m, bytes, nodes, world', rfl,
          ⟨htrailing, hcovers, hfetch, h.populated hp hfree hpass hshows⟩, rfl, _, hshows⟩
      · rw [hrefused]
        exact Or.inl ⟨_, _, rfl⟩
    · exact Or.inl ⟨_, _, rfl⟩
    · exact Or.inl ⟨_, _, rfl⟩

/-! ## Every operation -/

/-- The path that an operation fetches first, if nothing is there. -/
def Operation.fetched? : Operation → Option String
  | .openPath path _ => some path
  | .stat path => some path
  | .readAll path => some path
  | _ => none

/-- What an operation begins on: the file system as it was, or once one asset was fetched to the
    path that the operation names. -/
inductive Begun (mount : Option (Asset.Mount World)) (fs : FileSystem) (world : World)
    (op : Operation) (world' : World) : FileSystem → Prop where
  | asIs : Begun mount fs world op world' fs
  | fetched {text : String} {p : Path} {m : Asset.Mount World} {bytes : ByteArray}
      {nodes : Dictionary String Node} (names : op.fetched? = some text)
      (leads : fs.resolve text = .ok p) (mounted : mount = some m)
      (fetch : Fetched m fs world p bytes nodes world') :
      Begun mount fs world op world' (fs.withNodes nodes)

/-- An outcome is sound from where the operation begins. -/
def SoundFromStart (mount : Option (Asset.Mount World)) (fs : FileSystem) (world : World)
    (op : Operation) (outcome : Except Error α × FileSystem × World) : Prop :=
  ∃ fs₁, Begun mount fs world op outcome.2.2 fs₁ ∧ Sound fs₁ (outcome.1, outcome.2.1)

/-- Naming the value of an outcome differently does not make it unsound. -/
theorem Sound.map {β : Type} {outcome : Except Error α × FileSystem} (h : Sound fs outcome)
    (f : α → β) : Sound fs (outcome.1.map f, outcome.2) := by
  refine ⟨h.tree, fun e he => h.refused e ?_⟩
  obtain ⟨result, fs'⟩ := outcome
  cases result with
  | ok value => cases he
  | error e' => exact congrArg Except.error (Except.error.inj he)

namespace Shows

/-- A local operation that is sound may be preceded by a fetch. -/
theorem withFetched {β : Type} (h : fs.Shows v) (mount : Option (Asset.Mount World))
    (world : World) {text : String} {op : Operation} (hop : op.fetched? = some text)
    {act : FileSystem → Path → Except Error α × FileSystem}
    (hact : ∀ fs v p, Shows fs v → Sound fs (act fs p)) (f : α → β) :
    SoundFromStart mount fs world op
      ((withFetched mount fs world text act).1.map f, (withFetched mount fs world text act).2) := by
  unfold FileSystem.withFetched
  split
  · exact ⟨fs, .asIs, h.sound_self _⟩
  next p hp =>
  rcases h.populate mount world p with
    ⟨result, world', hpopulate⟩ | ⟨m, bytes, nodes, world', hm, hfetched, hpopulate, v', hv'⟩
  · rw [hpopulate]
    cases result with
    | error e => exact ⟨fs, .asIs, h.sound_self _⟩
    | ok => exact ⟨fs, .asIs, (hact fs v p h).map f⟩
  · rw [hpopulate]
    exact ⟨_, .fetched hop hp hm hfetched, (hact _ v' p hv').map f⟩

/-- Every operation is sound from where it begins. -/
theorem perform (h : fs.Shows v) (mount : Option (Asset.Mount World)) (world : World)
    (op : Operation) : SoundFromStart mount fs world op (perform mount fs world op) := by
  cases op with
  | openPath path mode =>
    exact h.withFetched mount world rfl (fun _ _ p hfs => hfs.sound_openLocal mode p) Reply.number
  | stat path =>
    exact h.withFetched mount world rfl (fun _ _ p hfs => hfs.sound_statLocal p) Reply.stat
  | readAll path =>
    exact h.withFetched mount world rfl (fun _ _ p hfs => hfs.sound_readLocal p) Reply.bytes
  | close descriptor => exact ⟨fs, .asIs, h.sound_settle world fun _ => h.close⟩
  | read descriptor length position =>
    exact ⟨fs, .asIs, (h.read descriptor length position).map Reply.chunk⟩
  | write descriptor data position =>
    refine ⟨fs, .asIs, ?_⟩
    rw [FileSystem.perform]
    split
    · next n fs' hwrite =>
      obtain ⟨v', hv'⟩ := h.write hwrite
      exact sound_ok hv' _
    · exact h.sound_self _
  | statDescriptor descriptor => exact ⟨fs, .asIs, h.sound_self _⟩
  | truncateDescriptor descriptor length =>
    exact ⟨fs, .asIs, h.sound_settle world fun _ => h.truncateDescriptor⟩
  | truncate path length => exact ⟨fs, .asIs, h.sound_settle world fun _ => h.truncate⟩
  | makeDir path recursive => exact ⟨fs, .asIs, (h.sound_makeDir path recursive).map _⟩
  | removeDir path => exact ⟨fs, .asIs, h.sound_settle world fun _ => h.removeDir⟩
  | unlink path =>
    refine ⟨fs, .asIs, h.sound_settle world fun fs' hok => ?_⟩
    obtain ⟨-, v', -, hv', -⟩ := h.unlink hok
    exact ⟨v', hv'⟩
  | rename source target => exact ⟨fs, .asIs, (h.sound_rename source target).map _⟩
  | setTimes path accessed modified =>
    exact ⟨fs, .asIs, h.sound_settle world fun _ => h.setTimes⟩
  | readDir path => exact ⟨fs, .asIs, h.sound_self _⟩
  | writeFile path data => exact ⟨fs, .asIs, (h.sound_writeFile path data).map _⟩
  | contains path => exact ⟨fs, .asIs, h.sound_self _⟩
  | cwd => exact ⟨fs, .asIs, h.sound_self _⟩
  | resolve path => exact ⟨fs, .asIs, h.sound_self _⟩
  | chdir path => exact ⟨fs, .asIs, h.sound_settle world fun _ => h.chdir⟩
  | takeStdout => exact ⟨fs, .asIs, ⟨v, h.of_nodes rfl⟩, by simp [FileSystem.perform]⟩
  | takeStderr => exact ⟨fs, .asIs, ⟨v, h.of_nodes rfl⟩, by simp [FileSystem.perform]⟩
  | clearOutput => exact ⟨fs, .asIs, ⟨v, h.of_nodes rfl⟩, by simp [FileSystem.perform]⟩

end Shows

end Workbench.FileSystem
