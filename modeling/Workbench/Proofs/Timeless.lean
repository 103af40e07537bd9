import Workbench.Proofs.TreeInvariant

set_option autoImplicit false

/-! # File systems apart from times

Times are noted and shown, but nothing is decided by them. Two file systems that hold the same apart
from times stay so whatever is done to both, and give the same answers as long as no times are asked
for. The order in which the nodes are kept does not matter either: a table is read by its keys. -/

namespace Workbench

namespace Node

/-- What a node holds: the bytes of a file, or the names in a directory. -/
def content : Node → ByteArray ⊕ List String
  | .file data _ => .inl data
  | .dir names _ => .inr names

theorem isDir_eq_content (node : Node) : node.isDir = node.content.isRight := by
  cases node <;> rfl

theorem isFile_eq_content (node : Node) : node.isFile = node.content.isLeft := by
  cases node <;> rfl

theorem content_addName {node node' : Node} (h : node.content = node'.content) (now now' : Time)
    (name : String) : (node.addName now name).content = (node'.addName now' name).content := by
  cases node with
  | file data times =>
    cases node' with
    | file data' times' => exact h
    | dir names' times' => cases h
  | dir names times =>
    cases node' with
    | file data' times' => cases h
    | dir names' times' =>
      cases h
      simp only [addName]
      split <;> rfl

theorem content_dropName (now : Time) (name : String) (node : Node) :
    (node.dropName now name).content = node.content.map id (List.filter (· ≠ name)) := by
  cases node with
  | file data times => rfl
  | dir names times =>
    simp only [dropName]
    split
    · rfl
    · next hmem =>
      have hall : names.filter (· ≠ name) = names := by
        refine List.filter_eq_self.2 fun other hother => decide_eq_true ?_
        rintro rfl
        exact hmem hother
      show Sum.inr names = Sum.inr (names.filter (· ≠ name))
      rw [hall]

end Node

namespace FileSystem

/-- What is kept under a key, apart from times. -/
def contentAt (fs : FileSystem) (key : String) : Option (ByteArray ⊕ List String) :=
  (fs.nodes.get? key).map Node.content

/-- Two file systems hold the same apart from times. -/
structure SameContent (fs fs' : FileSystem) : Prop where
  content : ∀ key, fs.contentAt key = fs'.contentAt key
  descriptors : fs.descriptors = fs'.descriptors
  nextDescriptor : fs.nextDescriptor = fs'.nextDescriptor
  cwd : fs.cwd = fs'.cwd
  stdout : fs.stdout = fs'.stdout
  stderr : fs.stderr = fs'.stderr

/-- Two outcomes are the same apart from times. -/
structure SameOutcome {α : Type} (outcome outcome' : α × FileSystem) : Prop where
  result : outcome.1 = outcome'.1
  left : SameContent outcome.2 outcome'.2

/-- Two outcomes in a world are the same apart from times. -/
structure SameOutcomeIn {α World : Type} (outcome outcome' : α × FileSystem × World) : Prop where
  result : outcome.1 = outcome'.1
  left : SameContent outcome.2.1 outcome'.2.1
  world : outcome.2.2 = outcome'.2.2

variable {α World : Type} {fs fs' : FileSystem}

/-! ## Looking at one key -/

theorem isDir_eq_contentAt (fs : FileSystem) (p : Path) :
    fs.isDir p = (fs.contentAt p.dirKey).any Sum.isRight := by
  rw [isDir, contentAt, Option.any_map]
  congr 1
  funext node
  exact node.isDir_eq_content

theorem isFile_eq_contentAt (fs : FileSystem) (p : Path) :
    fs.isFile p = (fs.contentAt p.fileKey).any Sum.isLeft := by
  rw [isFile, contentAt, Option.any_map]
  congr 1
  funext node
  exact node.isFile_eq_content

/-- Under one key, the same content is none on both sides, one file or one list of names. -/
theorem contentAt_cases {key : String} (h : fs.contentAt key = fs'.contentAt key) :
    (fs.nodes.get? key = none ∧ fs'.nodes.get? key = none) ∨
    (∃ data times times', fs.nodes.get? key = some (.file data times) ∧
      fs'.nodes.get? key = some (.file data times')) ∨
    ∃ names times times', fs.nodes.get? key = some (.dir names times) ∧
      fs'.nodes.get? key = some (.dir names times') := by
  unfold contentAt at h
  rcases hnode : fs.nodes.get? key with _ | ⟨data, times⟩ | ⟨names, times⟩ <;>
    rcases hnode' : fs'.nodes.get? key with _ | ⟨data', times'⟩ | ⟨names', times'⟩ <;>
    rw [hnode, hnode'] at h <;> cases h
  · exact Or.inl ⟨rfl, rfl⟩
  · exact Or.inr (Or.inl ⟨data, times, times', rfl, rfl⟩)
  · exact Or.inr (Or.inr ⟨names, times, times', rfl, rfl⟩)

namespace SameContent

theorem isDir (h : SameContent fs fs') (p : Path) : fs.isDir p = fs'.isDir p := by
  rw [isDir_eq_contentAt, isDir_eq_contentAt, h.content]

theorem isFile (h : SameContent fs fs') (p : Path) : fs.isFile p = fs'.isFile p := by
  rw [isFile_eq_contentAt, isFile_eq_contentAt, h.content]

theorem resolve (h : SameContent fs fs') (text : String) : fs.resolve text = fs'.resolve text := by
  rw [FileSystem.resolve, FileSystem.resolve, h.cwd]

theorem isSome_find? (h : SameContent fs fs') (p : Path) :
    (fs.find? p).isSome = (fs'.find? p).isSome := by
  have hdir : (fs.nodes.get? p.dirKey).isSome = (fs'.nodes.get? p.dirKey).isSome := by
    rcases contentAt_cases (h.content p.dirKey) with
      ⟨hnode, hnode'⟩ | ⟨_, _, _, hnode, hnode'⟩ | ⟨_, _, _, hnode, hnode'⟩ <;>
      rw [hnode, hnode'] <;> rfl
  unfold find?
  split
  · rcases contentAt_cases (h.content p.dirKey) with
      ⟨hnode, hnode'⟩ | ⟨_, _, _, hnode, hnode'⟩ | ⟨_, _, _, hnode, hnode'⟩ <;>
      rw [hnode, hnode'] <;> rfl
  · rcases contentAt_cases (h.content p.fileKey) with
      ⟨hnode, hnode'⟩ | ⟨_, _, _, hnode, hnode'⟩ | ⟨_, _, _, hnode, hnode'⟩ <;>
      rw [hnode, hnode']
    · exact hdir
    · rfl
    · exact hdir

theorem contains (h : SameContent fs fs') (text : String) :
    fs.contains text = fs'.contains text := by
  unfold FileSystem.contains
  rw [h.resolve text]
  split
  · exact h.isSome_find? _
  · rfl

/-! ## Changing the nodes -/

theorem put (h : SameContent fs fs') (key : String) {node node' : Node}
    (hnode : node.content = node'.content) :
    SameContent (fs.put key node) (fs'.put key node') := by
  refine { h with content := fun other => ?_ }
  have hother := h.content other
  unfold contentAt at hother ⊢
  rw [FileSystem.put, FileSystem.put, Dictionary.get?_put, Dictionary.get?_put]
  split
  · exact congrArg some hnode
  · exact hother

/-- The node under a key may be changed on both sides in ways that agree. -/
theorem update (h : SameContent fs fs') (key : String) {f f' : Node → Node}
    (hf : ∀ node node', node.content = node'.content → (f node).content = (f' node').content) :
    SameContent { fs with nodes := fs.nodes.update key f }
      { fs' with nodes := fs'.nodes.update key f' } := by
  refine { h with content := fun other => ?_ }
  have hother := h.content other
  unfold contentAt
  rw [Dictionary.get?_update, Dictionary.get?_update]
  split
  · rcases contentAt_cases hother with
      ⟨hnode, hnode'⟩ | ⟨_, _, _, hnode, hnode'⟩ | ⟨_, _, _, hnode, hnode'⟩ <;>
      rw [hnode, hnode']
    · rfl
    · exact congrArg some (hf _ _ rfl)
    · exact congrArg some (hf _ _ rfl)
  · exact hother

theorem link (h : SameContent fs fs') (p : Path) : SameContent (fs.link p) (fs'.link p) := by
  unfold FileSystem.link
  split
  · exact h.update _ fun _ _ hnode => Node.content_addName hnode _ _ _
  · exact h

theorem putFile (h : SameContent fs fs') (p : Path) (data : ByteArray) :
    SameContent (fs.putFile p data) (fs'.putFile p data) := by
  have hput : SameContent (fs.put p.fileKey (.file data (.stamp fs.clock)))
      (fs'.put p.fileKey (.file data (.stamp fs'.clock))) := h.put p.fileKey rfl
  exact hput.link p

theorem putDir (h : SameContent fs fs') (p : Path) :
    SameContent (fs.putDir p) (fs'.putDir p) := by
  have hput : SameContent (fs.put p.dirKey (.emptyDir fs.clock))
      (fs'.put p.dirKey (.emptyDir fs'.clock)) := h.put p.dirKey rfl
  exact hput.link p

theorem makeEach (h : SameContent fs fs') (dirs : List Path) :
    SameOutcome (FileSystem.makeEach dirs fs) (FileSystem.makeEach dirs fs') := by
  induction dirs generalizing fs fs' with
  | nil => exact ⟨rfl, h⟩
  | cons dir rest ih =>
    simp only [FileSystem.makeEach, ← h.isDir, ← h.isFile]
    split
    · exact ih h
    · split
      · exact ⟨rfl, h⟩
      · exact ih (h.putDir dir)

theorem placeFile (h : SameContent fs fs') (p : Path) (data : ByteArray) :
    SameOutcome (fs.placeFile p data) (fs'.placeFile p data) := by
  have hparents : SameOutcome (fs.makeParents p) (fs'.makeParents p) := by
    unfold makeParents
    split
    · exact ⟨rfl, h⟩
    · exact h.makeEach _
  obtain ⟨hresult, hleft⟩ := hparents
  unfold FileSystem.placeFile
  rcases hmade : fs.makeParents p with ⟨result, made⟩
  rcases hmade' : fs'.makeParents p with ⟨result', made'⟩
  rw [hmade, hmade'] at hresult hleft
  cases hresult
  cases result with
  | error e => exact ⟨rfl, hleft⟩
  | ok done => exact ⟨rfl, hleft.putFile p data⟩

/-! ## Whole operations -/

theorem clearOutput (h : SameContent fs fs') : SameContent fs.clearOutput fs'.clearOutput :=
  { h with stdout := rfl, stderr := rfl }

theorem writeFile (h : SameContent fs fs') (text : String) (data : ByteArray) :
    SameOutcome (fs.writeFile text data) (fs'.writeFile text data) := by
  unfold FileSystem.writeFile
  rw [← h.resolve text]
  split
  · exact ⟨rfl, h⟩
  · rw [← h.isDir]
    split
    · exact ⟨rfl, h⟩
    · exact h.placeFile _ data

/-- A file is fetched on both sides or on neither, and from the same world. -/
theorem populate (h : SameContent fs fs') (mount : Option (Asset.Mount World)) (world : World)
    (p : Path) :
    SameOutcomeIn (FileSystem.populate mount fs world p)
      (FileSystem.populate mount fs' world p) := by
  unfold FileSystem.populate
  rw [← h.isSome_find?]
  split
  · exact ⟨rfl, h, rfl⟩
  · cases mount with
    | none => exact ⟨rfl, h, rfl⟩
    | some mount =>
      dsimp only
      split
      · exact ⟨rfl, h, rfl⟩
      · split
        · next bytes world' _ =>
          have hplaced := h.placeFile p bytes
          exact ⟨hplaced.result, hplaced.left, rfl⟩
        · exact ⟨rfl, h, rfl⟩
        · exact ⟨rfl, h, rfl⟩

theorem withFetched (h : SameContent fs fs') (mount : Option (Asset.Mount World)) (world : World)
    (text : String) {act : FileSystem → Path → Except Error α × FileSystem}
    (hact : ∀ {fs fs' : FileSystem} (p : Path), SameContent fs fs' →
      SameOutcome (act fs p) (act fs' p)) :
    SameOutcomeIn (FileSystem.withFetched mount fs world text act)
      (FileSystem.withFetched mount fs' world text act) := by
  unfold FileSystem.withFetched
  rw [← h.resolve text]
  split
  · exact ⟨rfl, h, rfl⟩
  · next p _ =>
    obtain ⟨hresult, hleft, hworld⟩ := h.populate mount world p
    rcases hfetched : FileSystem.populate mount fs world p with ⟨result, fetched, after⟩
    rcases hfetched' : FileSystem.populate mount fs' world p with ⟨result', fetched', after'⟩
    rw [hfetched, hfetched'] at hresult hleft hworld
    cases hresult
    cases hworld
    cases result with
    | error e => exact ⟨rfl, hleft, rfl⟩
    | ok done =>
      have hacted := hact p hleft
      exact ⟨hacted.result, hacted.left, rfl⟩

theorem readLocal (h : SameContent fs fs') (p : Path) :
    SameOutcome (fs.readLocal p) (fs'.readLocal p) := by
  unfold FileSystem.readLocal file
  rcases contentAt_cases (h.content p.fileKey) with
    ⟨hnode, hnode'⟩ | ⟨data, _, _, hnode, hnode'⟩ | ⟨_, _, _, hnode, hnode'⟩ <;>
    rw [hnode, hnode']
  · exact ⟨rfl, h⟩
  · exact ⟨rfl, h.put p.fileKey rfl⟩
  · exact ⟨rfl, h⟩

theorem readAll (h : SameContent fs fs') (mount : Option (Asset.Mount World)) (world : World)
    (text : String) :
    SameOutcomeIn (fs.readAll mount world text) (fs'.readAll mount world text) :=
  h.withFetched mount world text fun p hsame => hsame.readLocal p

end SameContent

end FileSystem

end Workbench
