import Workbench.Proofs.Descriptors
import Workbench.Proofs.FileFrames

set_option autoImplicit false

/-! # Steps of the table of descriptors

An operation enters a descriptor under the next number, or takes one out, or leaves every descriptor
open under its number and in its mode, on a path that only a move changes and with a cursor that only
a read or a write moves. What is said here of one operation is all that later arguments about
descriptors use: from it come the numbers that were handed out, and what a descriptor can be open
on. -/

namespace Workbench.FileSystem

variable {World : Type} {v : View} {fs fs' : FileSystem} {op : Operation}

/-! ## What operations say of descriptors -/

namespace Operation

/-- The descriptor that an operation is aimed at. -/
def number? : Operation → Option Nat
  | .close number | .read number _ _ | .write number _ _ | .statDescriptor number
  | .truncateDescriptor number _ => some number
  | _ => none

/-- An operation reads or writes through a descriptor. -/
def Transfers (number : Nat) : Operation → Prop
  | .read n _ _ | .write n _ _ => n = number
  | _ => False

/-- The number that an operation has handed out. -/
def opened? : Operation → Except Error Reply → Option Nat
  | .openPath .., .ok (.number number) => some number
  | _, _ => none

end Operation

/-- Where a move takes the path of a descriptor: a moved file takes along what is open at its path,
    a moved directory what is open at or below its own. -/
def Move.follow : Move → List String → List String
  | .none, place => place
  | .file source target, place => if place = source.parts then target.parts else place
  | .dir source target, place =>
    if source.parts <+: place then target.parts ++ place.drop source.parts.length else place

/-- Where an operation takes the path of a descriptor. -/
def Operation.follow (fs : FileSystem) : Operation → List String → List String
  | .rename source target, place =>
    match fs.planMove source target with
    | .ok move => move.follow place
    | .error _ => place
  | _, place => place

/-- A descriptor after a move. -/
def Move.carry : Move → Descriptor → Descriptor
  | .none, d => d
  | .file source target, d =>
    if d.path.toString = source.toString then { d with path := target } else d
  | .dir source target, d =>
    if d.path.liesUnder source.dirKey then
      match Path.parse (target.toString ++
          String.ofList (d.path.toString.toList.drop source.toString.length)) with
      | .error _ => d
      | .ok path => { d with path := path }
    else d

/-- What holds of everything that was opened: a directory not for writing, and a file not at the
    root. -/
structure Suited (d : Descriptor) : Prop where
  dir : d.isDir = true → d.mode.writable = false
  file : d.isDir = false → d.path.parts ≠ []

/-- What an operation may do to the descriptors that stay open. -/
structure Carries (fs : FileSystem) (op : Operation) (f : Nat → Descriptor → Descriptor) :
    Prop where
  mode : ∀ n d, (f n d).mode = d.mode
  isDir : ∀ n d, (f n d).isDir = d.isDir
  place : ∀ n d, (f n d).path.parts = op.follow fs d.path.parts
  cursor : ∀ n d, ¬ op.Transfers n → (f n d).cursor = d.cursor
  stays : ∀ n d, d.path.parts ≠ [] → (f n d).path.parts ≠ []

/-- What an operation does to the table of descriptors. -/
inductive TableStep (fs fs' : FileSystem) (op : Operation) (reply : Except Error Reply) : Prop where
  | carried (f : Nat → Descriptor → Descriptor) (carries : Carries fs op f)
      (silent : op.opened? reply = none) (next : fs'.nextDescriptor = fs.nextDescriptor)
      (found : ∀ n, fs'.descriptors.get? n = (fs.descriptors.get? n).map (f n))
  | opened (d : Descriptor) (suited : Suited d) (path : String)
      (opens : op = .openPath path d.mode) (granted : reply = .ok (.number fs.nextDescriptor))
      (next : fs'.nextDescriptor = fs.nextDescriptor + 1)
      (found : fs'.descriptors = fs.descriptors.put fs.nextDescriptor d)
  | closed (number : Nat) (closes : op = .close number)
      (next : fs'.nextDescriptor = fs.nextDescriptor)
      (found : fs'.descriptors = fs.descriptors.remove number)

/-! ## Operations other than a move -/

/-- Only a move takes descriptors to another path. -/
theorem Carries.of_cursor {f : Nat → Descriptor → Descriptor}
    (hmode : ∀ n d, (f n d).mode = d.mode) (hisDir : ∀ n d, (f n d).isDir = d.isDir)
    (hpath : ∀ n d, (f n d).path = d.path)
    (hcursor : ∀ n d, ¬ op.Transfers n → (f n d).cursor = d.cursor)
    (hfollow : ∀ place, op.follow fs place = place) : Carries fs op f where
  mode := hmode
  isDir := hisDir
  place n d := by rw [hpath, hfollow]
  cursor := hcursor
  stays n d := by rw [hpath]; exact id

namespace TableStep

variable {reply : Except Error Reply}

/-- The table has stayed as it was. -/
theorem of_same (h : SameTable fs fs') (hsilent : op.opened? reply = none)
    (hfollow : ∀ place, op.follow fs place = place) : TableStep fs fs' op reply := by
  refine .carried (fun _ d => d) (.of_cursor (fun _ _ => rfl) (fun _ _ => rfl) (fun _ _ => rfl)
    (fun _ _ _ => rfl) hfollow) hsilent h.next fun n => ?_
  rw [h.descriptors]
  exact Option.map_id'.symm

/-- A refusal that changes nothing, or what comes of a grant. -/
theorem of_settle {world : World} {result : Except Error FileSystem}
    (hopened : ∀ reply, op.opened? reply = none) (hfollow : ∀ place, op.follow fs place = place)
    (hok : ∀ fs', result = .ok fs' → SameTable fs fs') :
    TableStep fs (settle fs world result).2.1 op (settle fs world result).1 := by
  cases result with
  | error e => exact of_same (.refl fs) (hopened _) hfollow
  | ok fs' => exact of_same (hok fs' rfl) (hopened _) hfollow

end TableStep

/-- One cursor was moved. -/
theorem get?_setCursor (fs : FileSystem) (number cursor n : Nat) :
    (fs.setCursor number cursor).descriptors.get? n = (fs.descriptors.get? n).map fun d =>
      if n = number then { d with cursor := cursor } else d := by
  rw [setCursor, Dictionary.get?_update]
  by_cases hn : number = n
  · simp only [if_pos hn, if_pos hn.symm]
  · simp only [if_neg hn, if_neg (Ne.symm hn)]
    exact Option.map_id'.symm

theorem TableStep.of_setCursor {reply : Except Error Reply} {number : Nat} (cursor : Nat)
    (htransfers : ∀ n, ¬ op.Transfers n → n ≠ number) (hsilent : op.opened? reply = none)
    (hfollow : ∀ place, op.follow fs place = place)
    (hnext : fs'.nextDescriptor = fs.nextDescriptor)
    (hfound : ∀ n, fs'.descriptors.get? n = (fs.setCursor number cursor).descriptors.get? n) :
    TableStep fs fs' op reply := by
  refine .carried (fun n d => if n = number then { d with cursor := cursor } else d)
    (.of_cursor ?_ ?_ ?_ ?_ hfollow) hsilent hnext fun n => ?_
  · intro n d
    split <;> rfl
  · intro n d
    split <;> rfl
  · intro n d
    split <;> rfl
  · intro n d hnot
    rw [if_neg (htransfers n hnot)]
  · rw [hfound, get?_setCursor]

theorem read_tableStep (fs : FileSystem) (number length : Nat) (position : Option Nat) :
    TableStep fs (fs.read number length position).2 (.read number length position)
      ((fs.read number length position).1.map .chunk) := by
  have htransfers : ∀ n, ¬ Operation.Transfers n (.read number length position) → n ≠ number :=
    fun n hnot heq => hnot heq.symm
  have houtcome := read_outcome fs number length position
  generalize fs.read number length position = outcome at houtcome ⊢
  cases houtcome with
  | stream => exact .of_same (.refl fs) rfl fun _ => rfl
  | refused => exact .of_same (.refl fs) rfl fun _ => rfl
  | missing d => exact .of_setCursor _ htransfers rfl (fun _ => rfl) rfl fun _ => rfl
  | found d data times start bytes =>
    -- the cursor is moved twice, and only the second time counts
    refine .of_setCursor (start + bytes.size) htransfers rfl (fun _ => rfl) rfl fun n => ?_
    rw [get?_setCursor, get?_setCursor, setFile, put]
    dsimp only
    rw [get?_setCursor, Option.map_map]
    congr 1
    funext d
    dsimp only [Function.comp_apply]
    split <;> rfl

theorem write_tableStep {number n : Nat} {bytes : ByteArray} {position : Option Nat}
    (hok : fs.write number bytes position = .ok (n, fs')) :
    TableStep fs fs' (.write number bytes position) (.ok (.number n)) := by
  cases (written_of_write hok).2 with
  | stdout => exact .of_same ⟨rfl, rfl⟩ rfl fun _ => rfl
  | stderr => exact .of_same ⟨rfl, rfl⟩ rfl fun _ => rfl
  | file d data times offset =>
    exact .of_setCursor _ (fun n hnot heq => hnot heq.symm) rfl (fun _ => rfl) rfl fun _ => rfl

theorem close_tableStep {number : Nat} (hok : fs.close number = .ok fs') :
    TableStep fs fs' (.close number) (.ok .done) := by
  rcases close_eq_ok_iff.1 hok with ⟨-, rfl⟩ | ⟨-, -, rfl⟩
  · exact .of_same (.refl _) rfl fun _ => rfl
  · exact .closed number rfl rfl rfl

/-! ## Opening -/

/-- Opening is refused without a trace in the table, or enters a descriptor that suits its mode. -/
theorem Shows.openLocal_cases (h : fs.Shows v) (mode : OpenMode) (p : Path) :
    (∃ e fs', openLocal mode fs p = (.error e, fs') ∧ SameTable fs fs') ∨
      ∃ d fs₁, openLocal mode fs p = fs₁.addDescriptor d ∧ SameTable fs fs₁ ∧ d.mode = mode ∧
        Suited d := by
  have hsame : ∀ {fs₁}, fs.createFor p mode = .ok fs₁ → SameTable fs fs₁ :=
    fun hcreated => (OnlyNodes.createFor hcreated).sameTable
  -- what is opened as a file is not the root
  have hsuited : ∀ {fs₁ data times} (cursor : Nat), fs.createFor p mode = .ok fs₁ →
      fs₁.file p = .ok (data, times) → Suited ⟨p, mode, cursor, false⟩ := by
    intro fs₁ data times cursor hcreated hfile
    obtain ⟨v₁, hv₁⟩ : ∃ v₁, fs₁.Shows v₁ := by
      rcases h.createFor hcreated with rfl | ⟨-, v₁, -, -, hv₁, -⟩
      · exact ⟨v, h⟩
      · exact ⟨v₁, hv₁⟩
    have hp := hv₁.table.parts_ne_nil ((hv₁.table.file_eq_ok_iff p data times).1 hfile) rfl
    exact ⟨fun hdir => (by cases hdir), fun _ => hp⟩
  have houtcome := openLocal_outcome mode fs p
  generalize openLocal mode fs p = outcome at houtcome ⊢
  cases houtcome with
  | uncreated e => exact Or.inl ⟨e, fs, rfl, .refl fs⟩
  | refused e fs₁ hcreated => exact Or.inl ⟨e, fs₁, rfl, hsame hcreated⟩
  | dir fs₁ hcreated hmode =>
    exact Or.inr ⟨_, fs₁, rfl, hsame hcreated, rfl,
      ⟨fun _ => hmode, fun hfile => (by cases hfile)⟩⟩
  | emptied fs₁ data times hcreated hfile =>
    have htable := hsame hcreated
    exact Or.inr ⟨_, _, rfl, ⟨htable.descriptors, htable.next⟩, rfl, hsuited 0 hcreated hfile⟩
  | file fs₁ data times hcreated hfile =>
    exact Or.inr ⟨_, fs₁, rfl, hsame hcreated, rfl, hsuited _ hcreated hfile⟩

theorem SameTable.added {fs₁ : FileSystem} (h : SameTable fs fs₁) {d : Descriptor}
    (hsuited : Suited d) (path : String) :
    TableStep fs (fs₁.addDescriptor d).2 (.openPath path d.mode)
      ((fs₁.addDescriptor d).1.map .number) := by
  refine .opened d hsuited path rfl ?_ ?_ ?_
  · rw [addDescriptor, h.next]
    rfl
  · rw [addDescriptor, h.next]
  · rw [addDescriptor, h.next, h.descriptors]

theorem SameTable.trans {fs₁ : FileSystem} (h : SameTable fs fs₁) (h' : SameTable fs₁ fs') :
    SameTable fs fs' :=
  ⟨h'.descriptors.trans h.descriptors, h'.next.trans h.next⟩

/-- From a tree, fetching fails without a change, or leaves a tree to go on from. -/
theorem Shows.withFetched_cases {α : Type} (h : fs.Shows v) (mount : Option (Asset.Mount World))
    (world : World) (text : String) (act : FileSystem → Path → Except Error α × FileSystem) :
    (∃ e world', FileSystem.withFetched mount fs world text act = (.error e, fs, world')) ∨
      ∃ p fs₁ v₁ world₁, fs.resolve text = .ok p ∧ fs₁.Shows v₁ ∧ OnlyNodes fs fs₁ ∧
        FileSystem.withFetched mount fs world text act =
          ((act fs₁ p).1, (act fs₁ p).2, world₁) := by
  cases hp : fs.resolve text with
  | error e => exact Or.inl ⟨e, world, by rw [FileSystem.withFetched, hp]⟩
  | ok p =>
    have hnodes := OnlyNodes.populate mount fs world p
    rcases h.populate mount world p with
      ⟨e | _, world', hpopulate⟩ | ⟨m, bytes, nodes, world', -, -, hpopulate, v', hv'⟩
    · refine Or.inl ⟨e, world', ?_⟩
      rw [FileSystem.withFetched, hp]
      dsimp only
      rw [hpopulate]
    · exact Or.inr ⟨p, fs, v, world', rfl, h, .refl fs, withFetched_eq hp hpopulate act⟩
    · rw [hpopulate] at hnodes
      exact Or.inr ⟨p, _, v', world', rfl, hv', hnodes, withFetched_eq hp hpopulate act⟩

/-- It is the same when what is opened has to be fetched first. -/
theorem Shows.openPath_cases (h : fs.Shows v) (mount : Option (Asset.Mount World)) (world : World)
    (path : String) (mode : OpenMode) :
    (∃ e fs' world', fs.openPath mount world path mode = (.error e, fs', world') ∧
      SameTable fs fs') ∨
      ∃ d fs₁ world', fs.openPath mount world path mode =
          ((fs₁.addDescriptor d).1, (fs₁.addDescriptor d).2, world') ∧
        SameTable fs fs₁ ∧ d.mode = mode ∧ Suited d := by
  rw [FileSystem.openPath]
  rcases h.withFetched_cases mount world path (openLocal mode) with
    ⟨e, world', hopen⟩ | ⟨p, fs₁, v₁, world₁, -, h₁, hnodes, hopen⟩
  · exact Or.inl ⟨e, fs, world', hopen, .refl fs⟩
  rcases h₁.openLocal_cases mode p with ⟨e, fs₂, hlocal, hsame⟩ | ⟨d, fs₂, hlocal, hsame, hd⟩
  · rw [hlocal] at hopen
    exact Or.inl ⟨e, fs₂, world₁, hopen, hnodes.sameTable.trans hsame⟩
  · rw [hlocal] at hopen
    exact Or.inr ⟨d, fs₂, world₁, hopen, hnodes.sameTable.trans hsame, hd⟩

theorem Shows.openPath_tableStep (h : fs.Shows v) (mount : Option (Asset.Mount World))
    (world : World) (path : String) (mode : OpenMode) :
    TableStep fs (fs.openPath mount world path mode).2.1 (.openPath path mode)
      ((fs.openPath mount world path mode).1.map .number) := by
  rcases h.openPath_cases mount world path mode with
    ⟨e, fs', world', hopen, hsame⟩ | ⟨d, fs₁, world', hopen, hsame, rfl, hd⟩
  · rw [hopen]
    exact .of_same hsame rfl fun _ => rfl
  · rw [hopen]
    exact hsame.added hd path

/-! ## Moving -/

theorem get?_map_snd (f : Descriptor → Descriptor) (table : Dictionary Nat Descriptor) (n : Nat) :
    Dictionary.get? (table.map fun (k, d) => (k, f d)) n = (table.get? n).map f := by
  induction table with
  | nil => rfl
  | cons entry table ih =>
    obtain ⟨k, d⟩ := entry
    rw [List.map_cons, Dictionary.get?_cons, Dictionary.get?_cons, ih]
    split <;> rfl

theorem get?_followFile (source target : Path) (table : Dictionary Nat Descriptor) (n : Nat) :
    (followFile source target table).get? n =
      (table.get? n).map (Move.file source target).carry := by
  rw [← get?_map_snd, followFile]
  congr 2
  funext entry
  obtain ⟨k, d⟩ := entry
  simp only [Move.carry]
  split <;> rfl

/-- Where all descriptors can follow, each goes where the move carries it. -/
theorem get?_followDir {source target : Path} {table table' : Dictionary Nat Descriptor}
    (h : followDir source target table = (.ok (), table')) (n : Nat) :
    table'.get? n = (table.get? n).map (Move.dir source target).carry := by
  induction table generalizing table' with
  | nil =>
    cases h
    rfl
  | cons entry rest ih =>
    obtain ⟨k, d⟩ := entry
    rcases hrest : followDir source target rest with ⟨result, rest'⟩
    rw [followDir, hrest] at h
    rw [Dictionary.get?_cons]
    split at h
    · next hunder =>
      split at h
      · cases h
      · next path hpath =>
        cases h
        rw [Dictionary.get?_cons, ih hrest]
        split
        · rw [Option.map_some, Move.carry, if_pos hunder, hpath]
        · rfl
    · next hunder =>
      cases h
      rw [Dictionary.get?_cons, ih hrest]
      split
      · rw [Option.map_some, Move.carry, if_neg hunder]
      · rfl

theorem Move.kind (node : Node) (source target : Path) :
    (if node.isDir then Move.dir source target else .file source target) = .file source target ∨
      (if node.isDir then Move.dir source target else .file source target) = .dir source target := by
  split
  · exact Or.inr rfl
  · exact Or.inl rfl

/-- The paths of descriptors are carried to where the move takes them. -/
theorem Move.parts_carry {move : Move} {source target : Path} (hsource : source.parts ≠ [])
    (htarget : target.parts ≠ []) (hmove : move = .file source target ∨ move = .dir source target)
    (d : Descriptor) : (move.carry d).path.parts = move.follow d.path.parts := by
  rcases hmove with rfl | rfl
  · simp only [carry, follow, Path.toString_inj]
    split <;> rfl
  · simp only [carry, follow, ← Path.liesUnder_dirKey]
    split
    · next hunder =>
      obtain ⟨q, hq, hparts⟩ :=
        parse_followed hsource htarget ((Path.liesUnder_dirKey d.path source).1 hunder)
      rw [hq]
      exact hparts
    · rfl

theorem Move.follow_ne_nil {move : Move} {source target : Path} (htarget : target.parts ≠ [])
    (hmove : move = .file source target ∨ move = .dir source target) {place : List String}
    (hplace : place ≠ []) : move.follow place ≠ [] := by
  rcases hmove with rfl | rfl
  · simp only [follow]
    split
    · exact htarget
    · exact hplace
  · simp only [follow]
    split
    · exact List.append_ne_nil_of_left_ne_nil htarget _
    · exact hplace

/-- A move changes the path of a descriptor and nothing else. -/
theorem Move.carry_eq (move : Move) (d : Descriptor) :
    ∃ path, move.carry d = { d with path := path } := by
  cases move with
  | none => exact ⟨d.path, rfl⟩
  | file source target =>
    simp only [carry]
    split
    · exact ⟨target, rfl⟩
    · exact ⟨d.path, rfl⟩
  | dir source target =>
    simp only [carry]
    split
    · split
      · exact ⟨d.path, rfl⟩
      · exact ⟨_, rfl⟩
    · exact ⟨d.path, rfl⟩

/-- A renaming is refused without a change, or the two paths are one and nothing happens, or the
    node at the first is moved to the second: then the nodes are those of the moved tree, the
    descriptors are carried, and the two names are changed. -/
inductive Renaming (v : View) (fs : FileSystem) (source target : String) :
    Except Error Unit × FileSystem → Prop where
  | refused (e : Error) (plan : fs.planMove source target = .error e) :
      Renaming v fs source target (.error e, fs)
  | idle (s t : Path) (leads : fs.resolve source = .ok s) (goes : fs.resolve target = .ok t)
      (plan : fs.planMove source target = .ok .none) (same : s.parts = t.parts) :
      Renaming v fs source target (.ok (), fs)
  | moved (s t : Path) (node : Node) (nodes : Dictionary String Node)
      (table : Dictionary Nat Descriptor) (leads : fs.resolve source = .ok s)
      (goes : fs.resolve target = .ok t) (movable : Movable v s t node)
      (plan : fs.planMove source target = .ok (if node.isDir then .dir s t else .file s t))
      (moves : Represents nodes (v.move s.parts t.parts))
      (carries : ∀ n, table.get? n = (fs.descriptors.get? n).map
        (if node.isDir then Move.dir s t else .file s t).carry) :
      Renaming v fs source target
        (.ok (), { fs with nodes := nodes, descriptors := table }.relink s t)

namespace Shows

/-- What carrying out a move does that may be made. -/
theorem carryOut_eq (h : fs.Shows v) {source target : Path} {node : Node}
    (hmovable : Movable v source target node) :
    ∃ nodes table, Represents nodes (v.move source.parts target.parts) ∧
      (∀ n, table.get? n = (fs.descriptors.get? n).map
        (if node.isDir then Move.dir source target else .file source target).carry) ∧
      fs.carryOut (if node.isDir then .dir source target else .file source target) =
        (.ok (), { fs with nodes := nodes, descriptors := table }.relink source target) := by
  cases hkind : node.isDir with
  | true =>
    obtain ⟨table, hfollow⟩ :=
      followDir_eq_ok hmovable.source_ne hmovable.target_ne fs.descriptors
    refine ⟨_, table, h.moveNodes hmovable.there hkind hmovable.source_ne hmovable.free,
      get?_followDir hfollow, ?_⟩
    rw [if_pos rfl, FileSystem.carryOut, hfollow]
  | false =>
    refine ⟨_, _, h.moveNode hmovable.there hkind hmovable.free,
      get?_followFile source target fs.descriptors, ?_⟩
    rw [if_neg Bool.false_ne_true, FileSystem.carryOut]

/-- Renaming comes out as one of three things. -/
theorem rename_cases (h : fs.Shows v) (source target : String) :
    Renaming v fs source target (fs.rename source target) := by
  unfold FileSystem.rename
  split
  · next e hplan => exact .refused e hplan
  · next move hplan =>
    obtain ⟨s, t, hs, ht, ⟨rfl, hsame⟩ | ⟨node, hmovable, rfl⟩⟩ := h.planMove_eq hplan
    · exact .idle s t hs ht hplan hsame
    · obtain ⟨nodes, table, hnodes, htable, hdone⟩ := h.carryOut_eq hmovable
      rw [hdone]
      exact .moved s t node nodes table hs ht hmovable hplan hnodes htable

theorem rename_tableStep (h : fs.Shows v) (source target : String) :
    TableStep fs (fs.rename source target).2 (.rename source target)
      ((fs.rename source target).1.map fun _ => .done) := by
  have hsilent : ∀ reply, Operation.opened? (.rename source target) reply = none := fun _ => rfl
  have hfollow : ∀ {move}, fs.planMove source target = .ok move → ∀ place,
      Operation.follow fs (.rename source target) place = move.follow place := by
    intro move hplan place
    rw [Operation.follow, hplan]
  have hcases := h.rename_cases source target
  generalize fs.rename source target = outcome at hcases ⊢
  cases hcases with
  | refused e hplan =>
    refine .of_same (.refl fs) (hsilent _) fun place => ?_
    rw [Operation.follow, hplan]
  | idle s t _ _ hplan _ => exact .of_same (.refl fs) (hsilent _) (hfollow hplan)
  | moved s t node nodes table _ _ hmovable hplan _ htable =>
    have hkind := Move.kind node s t
    set move := if node.isDir then Move.dir s t else .file s t
    have hplace := Move.parts_carry hmovable.source_ne hmovable.target_ne hkind
    have hsame := (OnlyNodes.relink { fs with nodes := nodes, descriptors := table } s t).sameTable
    refine .carried (fun _ => move.carry) ⟨?_, ?_, ?_, ?_, ?_⟩ (hsilent _) hsame.next fun n => ?_
    · intro _ d
      obtain ⟨path, heq⟩ := move.carry_eq d
      rw [heq]
    · intro _ d
      obtain ⟨path, heq⟩ := move.carry_eq d
      rw [heq]
    · exact fun _ d => (hplace d).trans (hfollow hplan _).symm
    · intro _ d _
      obtain ⟨path, heq⟩ := move.carry_eq d
      rw [heq]
    · intro _ d hd
      rw [hplace]
      exact Move.follow_ne_nil hmovable.target_ne hkind hd
    · rw [hsame.descriptors]
      exact htable n

/-! ## Every operation -/

/-- What any operation does to the table of descriptors. -/
theorem tableStep (h : fs.Shows v) (mount : Option (Asset.Mount World)) (world : World)
    (op : Operation) :
    TableStep fs (fs.perform mount world op).2.1 op (fs.perform mount world op).1 := by
  cases op with
  | openPath path mode => exact h.openPath_tableStep mount world path mode
  | stat path => exact .of_same (OnlyNodes.stat mount fs world path).sameTable rfl fun _ => rfl
  | readAll path =>
    exact .of_same (OnlyNodes.readAll mount fs world path).sameTable rfl fun _ => rfl
  | close number =>
    rw [FileSystem.perform]
    cases hclose : fs.close number with
    | error e => exact .of_same (.refl fs) rfl fun _ => rfl
    | ok fs' => exact close_tableStep hclose
  | read number length position => exact read_tableStep fs number length position
  | write number data position =>
    rw [FileSystem.perform]
    split
    · next hwrite => exact write_tableStep hwrite
    · exact .of_same (.refl fs) rfl fun _ => rfl
  | truncateDescriptor number length =>
    exact .of_settle (fun _ => rfl) (fun _ => rfl) fun _ hok =>
      (OnlyNodes.truncateDescriptor hok).sameTable
  | truncate path length =>
    exact .of_settle (fun _ => rfl) (fun _ => rfl) fun _ hok => (OnlyNodes.truncate hok).sameTable
  | makeDir path recursive =>
    exact .of_same (OnlyNodes.makeDir fs path recursive).sameTable rfl fun _ => rfl
  | removeDir path =>
    exact .of_settle (fun _ => rfl) (fun _ => rfl) fun _ hok => (OnlyNodes.removeDir hok).sameTable
  | unlink path =>
    exact .of_settle (fun _ => rfl) (fun _ => rfl) fun _ hok => (OnlyNodes.unlink hok).sameTable
  | rename source target => exact h.rename_tableStep source target
  | setTimes path accessed modified =>
    exact .of_settle (fun _ => rfl) (fun _ => rfl) fun _ hok => (OnlyNodes.setTimes hok).sameTable
  | writeFile path data =>
    exact .of_same (OnlyNodes.writeFile fs path data).sameTable rfl fun _ => rfl
  | chdir path =>
    exact .of_settle (fun _ => rfl) (fun _ => rfl) fun _ hok => SameTable.chdir hok
  | statDescriptor | readDir | contains | cwd | resolve =>
    exact .of_same (.refl fs) rfl fun _ => rfl
  | takeStdout | takeStderr | clearOutput => exact .of_same ⟨rfl, rfl⟩ rfl fun _ => rfl

end Shows

/-- A number is handed out, and then it is the next one, or none is. -/
theorem TableStep.handsOut {reply : Except Error Reply} (h : TableStep fs fs' op reply) :
    (op.opened? reply = none ∧ fs'.nextDescriptor = fs.nextDescriptor) ∨
      (op.opened? reply = some fs.nextDescriptor ∧
        fs'.nextDescriptor = fs.nextDescriptor + 1) := by
  cases h with
  | carried f _ hsilent hnext _ => exact Or.inl ⟨hsilent, hnext⟩
  | opened d _ path hopens hgranted hnext _ =>
    rw [hopens, hgranted]
    exact Or.inr ⟨rfl, hnext⟩
  | closed number hcloses hnext _ =>
    rw [hcloses]
    exact Or.inl ⟨rfl, hnext⟩

/-! ## What is open -/

/-- Every descriptor in the table has a number that was handed out, and suits what it is open on. -/
structure Seated (fs : FileSystem) : Prop where
  below : ∀ n d, fs.descriptors.get? n = some d → n < fs.nextDescriptor
  suited : ∀ n d, fs.descriptors.get? n = some d → Suited d

theorem Seated.step {reply : Except Error Reply} (h : Seated fs)
    (hstep : TableStep fs fs' op reply) : Seated fs' := by
  cases hstep with
  | carried f hcarries hsilent hnext hfound =>
    have hback : ∀ n d', fs'.descriptors.get? n = some d' →
        ∃ d, fs.descriptors.get? n = some d ∧ f n d = d' := by
      intro n d' hd'
      rw [hfound] at hd'
      exact Option.map_eq_some_iff.1 hd'
    refine ⟨fun n d' hd' => ?_, fun n d' hd' => ?_⟩
    · obtain ⟨d, hd, -⟩ := hback n d' hd'
      exact hnext ▸ h.below n d hd
    · obtain ⟨d, hd, rfl⟩ := hback n d' hd'
      obtain ⟨hdir, hfile⟩ := h.suited n d hd
      refine ⟨fun hisDir => ?_, fun hisDir => hcarries.stays n d (hfile ?_)⟩
      · rw [hcarries.mode]
        exact hdir (hcarries.isDir n d ▸ hisDir)
      · rwa [hcarries.isDir] at hisDir
  | opened d hsuited path hopens hgranted hnext hfound =>
    refine ⟨fun n d' hd' => ?_, fun n d' hd' => ?_⟩ <;>
      rw [hfound, Dictionary.get?_put] at hd' <;> split at hd'
    · next heq => exact heq ▸ hnext ▸ Nat.lt_succ_self _
    · exact hnext ▸ Nat.lt_succ_of_lt (h.below n d' hd')
    · exact Option.some.inj hd' ▸ hsuited
    · exact h.suited n d' hd'
  | closed number hcloses hnext hfound =>
    have hback : ∀ n d, fs'.descriptors.get? n = some d → fs.descriptors.get? n = some d := by
      intro n d hd
      rw [hfound, Dictionary.get?_remove] at hd
      split at hd
      · cases hd
      · exact hd
    exact ⟨fun n d hd => hnext ▸ h.below n d (hback n d hd),
      fun n d hd => h.suited n d (hback n d hd)⟩

theorem Reachable.seated (h : Reachable fs) : Seated fs := by
  induction h with
  | new clock =>
    have hnone : ∀ n, (empty clock).descriptors.get? n = none := fun _ => rfl
    refine ⟨fun n d hd => ?_, fun n d hd => ?_⟩ <;>
      · rw [hnone] at hd
        cases hd
  | tick clock _ ih => exact ⟨ih.below, ih.suited⟩
  | step mount world op h ih =>
    obtain ⟨v, hv⟩ := h.shows
    exact ih.step (hv.tableStep mount world op)

/-- A descriptor that is not closed stays open under its number and in its mode. -/
structure Kept (fs fs' : FileSystem) (op : Operation) (n : Nat) (d d' : Descriptor) : Prop where
  found : fs'.descriptors.get? n = some d'
  mode : d'.mode = d.mode
  isDir : d'.isDir = d.isDir
  place : d'.path.parts = op.follow fs d.path.parts
  cursor : ¬ op.Transfers n → d'.cursor = d.cursor

theorem Seated.kept {reply : Except Error Reply} (h : Seated fs)
    (hstep : TableStep fs fs' op reply) {n : Nat} {d : Descriptor}
    (hd : fs.descriptors.get? n = some d) (hopen : op ≠ .close n) :
    ∃ d', Kept fs fs' op n d d' := by
  cases hstep with
  | carried f hcarries _ _ hfound =>
    exact ⟨f n d, by rw [hfound, hd, Option.map_some], hcarries.mode n d, hcarries.isDir n d,
      hcarries.place n d, hcarries.cursor n d⟩
  | opened new _ path hopens _ _ hfound =>
    -- the number that is handed out is none that is open
    refine ⟨d, ?_, rfl, rfl, by rw [hopens]; rfl, fun _ => rfl⟩
    rw [hfound, Dictionary.get?_put, if_neg (h.below n d hd).ne', hd]
  | closed number hcloses _ hfound =>
    have hne : number ≠ n := fun heq => hopen (heq ▸ hcloses)
    refine ⟨d, ?_, rfl, rfl, by rw [hcloses]; rfl, fun _ => rfl⟩
    rw [hfound, Dictionary.get?_remove, if_neg hne, hd]

/-! ## Histories -/

/-- What was asked of a new file system, with the replies. -/
inductive History : FileSystem → List (Operation × Except Error Reply) → Prop where
  | new (clock : Time) : History (.empty clock) []
  | tick {fs : FileSystem} {log : List (Operation × Except Error Reply)} (clock : Time) :
      History fs log → History { fs with clock := clock } log
  | step {fs : FileSystem} {log : List (Operation × Except Error Reply)} {World : Type}
      (mount : Option (Asset.Mount World)) (world : World) (op : Operation) : History fs log →
      History (fs.perform mount world op).2.1 (log ++ [(op, (fs.perform mount world op).1)])

/-- The numbers that were handed out, in order. -/
def numbersOf (log : List (Operation × Except Error Reply)) : List Nat :=
  log.filterMap fun entry => entry.1.opened? entry.2

theorem numbersOf_concat (log : List (Operation × Except Error Reply)) (op : Operation)
    (reply : Except Error Reply) :
    numbersOf (log ++ [(op, reply)]) = numbersOf log ++ (op.opened? reply).toList := by
  rw [numbersOf, List.filterMap_append, ← numbersOf, List.filterMap_cons, List.filterMap_nil]
  cases op.opened? reply <;> rfl

namespace History

variable {log : List (Operation × Except Error Reply)}

theorem reachable (h : History fs log) : Reachable fs := by
  induction h with
  | new clock => exact .new clock
  | tick clock _ ih => exact .tick clock ih
  | step mount world op _ ih => exact .step mount world op ih

/-- One number is handed out after the other, whether those before are still open or not. -/
theorem numbers (h : History fs log) :
    numbersOf log = List.range' firstDescriptor (numbersOf log).length ∧
      fs.nextDescriptor = firstDescriptor + (numbersOf log).length := by
  induction h with
  | new clock => exact ⟨rfl, rfl⟩
  | tick clock _ ih => exact ih
  | @step fs log World mount world op h ih =>
    obtain ⟨hrange, hnext⟩ := ih
    obtain ⟨v, hv⟩ := h.reachable.shows
    rw [numbersOf_concat]
    rcases (hv.tableStep mount world op).handsOut with ⟨hopened, hsame⟩ | ⟨hopened, hgrown⟩
    · rw [hopened, Option.toList_none, List.append_nil, hsame]
      exact ⟨hrange, hnext⟩
    · rw [hopened, Option.toList_some, List.length_append, List.length_singleton,
        List.range'_1_concat, ← hrange, hgrown, hnext]
      exact ⟨rfl, rfl⟩

/-- What is asked one after the other goes into the record with its replies. -/
theorem performAll (h : History fs log) (mount : Option (Asset.Mount World))
    (ops : List Operation) (world : World) :
    History (FileSystem.performAll mount fs world ops).2.1
      (log ++ ops.zip (FileSystem.performAll mount fs world ops).1) := by
  induction ops generalizing fs world log with
  | nil => simpa [FileSystem.performAll] using h
  | cons op ops ih =>
    have hrest := ih (h.step mount world op) (fs.perform mount world op).2.2
    rw [List.append_assoc] at hrest
    exact hrest

end History

/-! ## The counter as a word -/

/-- What a counter of 32 bits shows after some descriptors were handed out. Once it is full it begins
    again at 0. -/
def wordCounter : Nat → UInt32
  | 0 => 3
  | opens + 1 => wordCounter opens + 1

theorem toNat_wordCounter {opens : Nat} (h : firstDescriptor + opens < Nat.pow 2 32) :
    (wordCounter opens).toNat = firstDescriptor + opens := by
  induction opens with
  | zero => rfl
  | succ opens ih =>
    have hbefore := ih (by omega)
    rw [wordCounter, UInt32.toNat_add, hbefore]
    exact Nat.mod_eq_of_lt h

end Workbench.FileSystem
