import Workbench.FileSystem.Basic
import Workbench.Proofs.Dictionary
import Workbench.Proofs.PathKeys
import Workbench.Proofs.TreeView

set_option autoImplicit false

/-! # The table of nodes as a tree

The file system keeps its nodes in a flat table, under keys that are texts. A table represents a
view if looking up the key of a path, for a kind of node, finds exactly what the view shows at the
components of the path. Then no key is in the table that is not the key of a path, no path has a
node of either kind, and every way of looking at the table is a way of looking at the view. Keeping,
taking away and changing a node carries over from the table to the view. -/

namespace Workbench.FileSystem

/-- A table of nodes represents a view. -/
structure Represents (nodes : Dictionary String Node) (v : View) : Prop where
  distinct : nodes.keys.Nodup
  /-- What is under a key is what is at the path of that key. -/
  found : ∀ key node, nodes.get? key = some node ↔
    ∃ p : Path, p.key node.isDir = key ∧ v p.parts = some node
  /-- Only components lead to nodes. -/
  proper : ∀ parts, (v parts).isSome → ∀ part ∈ parts, Path.isComponent part = true
  root : ∃ node, v [] = some node ∧ node.isDir = true

/-- What is at a path, however the path was spelled. -/
def nodeAt (fs : FileSystem) (p : Path) : Option Node := (fs.keyOf? p).bind fs.nodes.get?

/-- A file system shows a tree. -/
structure Shows (fs : FileSystem) (v : View) : Prop where
  table : Represents fs.nodes v
  tree : v.IsTree

variable {nodes : Dictionary String Node} {v : View} {fs : FileSystem}

/-! ## Looking -/

namespace Represents

/-- A file is not at the root. -/
theorem parts_ne_nil (h : Represents nodes v) {p : Path} {node : Node}
    (hv : v p.parts = some node) (hfile : node.isDir = false) : p.parts ≠ [] := by
  intro hp
  obtain ⟨root, hroot, hdir⟩ := h.root
  rw [hp, hroot, Option.some.injEq] at hv
  rw [hv, hfile] at hdir
  cases hdir

theorem get?_key (h : Represents nodes v) (p : Path) (dir : Bool)
    (hp : dir = false → p.parts ≠ []) :
    nodes.get? (p.key dir) = (v p.parts).filter fun node => node.isDir == dir := by
  ext node
  rw [h.found, Option.filter_eq_some_iff, beq_iff_eq]
  constructor
  · rintro ⟨q, hq, hv⟩
    obtain ⟨hparts, hdir⟩ := (Path.key_inj (h.parts_ne_nil hv) hp).1 hq
    exact ⟨hparts ▸ hv, hdir⟩
  · rintro ⟨hv, rfl⟩
    exact ⟨p, rfl, hv⟩

theorem get?_dirKey (h : Represents nodes v) (p : Path) :
    nodes.get? p.dirKey = (v p.parts).filter Node.isDir := by
  rw [← Path.key_true, h.get?_key p true (by simp)]
  congr
  funext node
  cases node <;> rfl

theorem get?_fileKey (h : Represents nodes v) {p : Path} (hp : p.parts ≠ []) :
    nodes.get? p.fileKey = (v p.parts).filter Node.isFile := by
  rw [← Path.key_false, h.get?_key p false fun _ => hp]
  congr
  funext node
  cases node <;> rfl

/-- The key of a file at the root is that of the root itself. -/
theorem get?_fileKey_root (h : Represents nodes v) {p : Path} (hp : p.parts = []) :
    ∃ node, nodes.get? p.fileKey = some node ∧ v p.parts = some node ∧ node.isDir = true := by
  obtain ⟨node, hv, hdir⟩ := h.root
  refine ⟨node, ?_, hp ▸ hv, hdir⟩
  rw [Path.fileKey_eq_dirKey hp, h.get?_dirKey, hp, hv, Option.filter_some, if_pos hdir]

theorem isDir_eq (h : Represents fs.nodes v) (p : Path) :
    fs.isDir p = (v p.parts).any Node.isDir := by
  rw [isDir, h.get?_dirKey]
  cases v p.parts with
  | none => rfl
  | some node => cases node <;> rfl

theorem isFile_eq (h : Represents fs.nodes v) (p : Path) :
    fs.isFile p = (v p.parts).any Node.isFile := by
  rw [isFile]
  by_cases hp : p.parts = []
  · obtain ⟨node, hnode, hv, -⟩ := h.get?_fileKey_root hp
    rw [hnode, hv]
  · rw [h.get?_fileKey hp]
    cases v p.parts with
    | none => rfl
    | some node => cases node <;> rfl

theorem find?_eq (h : Represents fs.nodes v) (p : Path) :
    fs.find? p = if p.trailing then (v p.parts).filter Node.isDir else v p.parts := by
  rw [find?, h.get?_dirKey]
  split
  · cases v p.parts with
    | none => rfl
    | some node => cases node <;> rfl
  · next htrailing =>
    rw [h.get?_fileKey fun hp => htrailing (p.rootTrails hp)]
    cases v p.parts with
    | none => rfl
    | some node => cases node <;> rfl

/-- What is found at a path is there, however the path was spelled. -/
theorem eq_of_find? (h : Represents fs.nodes v) {p : Path} {node : Node}
    (hfind : fs.find? p = some node) : v p.parts = some node := by
  rw [h.find?_eq] at hfind
  split at hfind
  · exact (Option.filter_eq_some_iff.1 hfind).1
  · exact hfind

theorem keyOf?_eq (h : Represents fs.nodes v) (p : Path) :
    fs.keyOf? p = (v p.parts).map fun node => p.key node.isDir := by
  rw [keyOf?, h.isFile_eq, h.get?_dirKey]
  cases v p.parts with
  | none => rfl
  | some node => cases node <;> rfl

theorem nodeAt_eq (h : Represents fs.nodes v) (p : Path) : fs.nodeAt p = v p.parts := by
  rw [nodeAt, h.keyOf?_eq]
  cases hv : v p.parts with
  | none => rfl
  | some node =>
    rw [Option.map_some, Option.bind_some]
    exact (h.found _ node).2 ⟨p, rfl, hv⟩

theorem file_eq_ok_iff (h : Represents fs.nodes v) (p : Path) (data : ByteArray) (times : Times) :
    fs.file p = .ok (data, times) ↔ v p.parts = some (.file data times) := by
  rw [file]
  by_cases hp : p.parts = []
  · obtain ⟨node, hnode, hv, hdir⟩ := h.get?_fileKey_root hp
    rw [hnode, hv]
    cases node with
    | file => cases hdir
    | dir => simp
  · rw [h.get?_fileKey hp]
    cases v p.parts with
    | none => simp
    | some node => cases node <;> simp [Node.isFile, Option.filter_some]

/-! ## Changing -/

/-- A node may be kept where nothing is, or in place of a node of its kind. -/
theorem put (h : Represents nodes v) (p : Path) (node : Node)
    (hold : ∀ old, v p.parts = some old → old.isDir = node.isDir)
    (hp : node.isDir = false → p.parts ≠ []) :
    Represents (nodes.put (p.key node.isDir) node) (v.set p.parts (some node)) where
  distinct := Dictionary.nodup_keys_put h.distinct _ _
  found key new := by
    rw [Dictionary.get?_put]
    constructor
    · intro hget
      split at hget
      · next hkey =>
        cases hget
        exact ⟨p, hkey, if_pos rfl⟩
      · next hkey =>
        obtain ⟨q, hq, hv⟩ := (h.found key new).1 hget
        -- another key at the same path would be of the other kind
        refine ⟨q, hq, (if_neg fun hparts => hkey ?_).trans hv⟩
        rw [← hold new (hparts ▸ hv), ← hq, Path.key_congr hparts]
    · rintro ⟨q, rfl, hv⟩
      unfold View.set at hv
      split at hv
      · next hparts =>
        cases hv
        rw [if_pos (Path.key_congr hparts _).symm]
      · next hparts =>
        rw [if_neg, h.found]
        · exact ⟨q, rfl, hv⟩
        · rw [Path.key_inj hp (h.parts_ne_nil hv)]
          exact fun hand => hparts hand.1.symm
  proper parts hsome := by
    unfold View.set at hsome
    split at hsome
    · next hparts => exact hparts ▸ p.proper
    · exact h.proper parts hsome
  root := by
    unfold View.set
    split
    · next hparts =>
      refine ⟨node, rfl, ?_⟩
      by_contra hfile
      exact hp (Bool.not_eq_true _ ▸ hfile) hparts.symm
    · exact h.root

/-- What is not the root may be taken away. -/
theorem remove (h : Represents nodes v) {p : Path} (hp : p.parts ≠ []) {node : Node}
    (hv : v p.parts = some node) :
    Represents (nodes.remove (p.key node.isDir)) (v.set p.parts none) where
  distinct := Dictionary.nodup_keys_remove h.distinct _
  found key other := by
    rw [Dictionary.get?_remove]
    constructor
    · intro hget
      split at hget
      · cases hget
      · next hkey =>
        obtain ⟨q, hq, hother⟩ := (h.found key other).1 hget
        refine ⟨q, hq, (if_neg fun hparts => hkey ?_).trans hother⟩
        rw [hparts, hv, Option.some.injEq] at hother
        rw [hother, ← hq, Path.key_congr hparts]
    · rintro ⟨q, rfl, hother⟩
      unfold View.set at hother
      split at hother
      · cases hother
      · next hparts =>
        rw [if_neg, h.found]
        · exact ⟨q, rfl, hother⟩
        · rw [Path.key_inj (fun _ => hp) (h.parts_ne_nil hother)]
          exact fun hand => hparts hand.1.symm
  proper parts hsome := by
    unfold View.set at hsome
    split at hsome
    · cases hsome
    · exact h.proper parts hsome
  root := by
    unfold View.set
    rw [if_neg hp.symm]
    exact h.root

/-- A node may be changed into one of its kind. -/
theorem update (h : Represents nodes v) {p : Path} {node : Node} (hv : v p.parts = some node)
    {f : Node → Node} (hf : (f node).isDir = node.isDir) :
    Represents (nodes.update (p.key node.isDir) f) (v.set p.parts (some (f node))) := by
  rw [Dictionary.update, (h.found _ node).2 ⟨p, rfl, hv⟩]
  have hput := h.put p (f node)
    (fun old hold => by rw [hf, ← Option.some.inj (hv.symm.trans hold)])
    (fun hfile => h.parts_ne_nil hv (hf ▸ hfile))
  rwa [hf] at hput

/-- A change of directories that leaves files alone may be made at any path. -/
theorem updateDir (h : Represents nodes v) (p : Path) {f : Node → Node}
    (hdir : ∀ node, (f node).isDir = node.isDir)
    (hfile : ∀ node, node.isDir = false → f node = node) :
    Represents (nodes.update p.dirKey f) (v.modify p.parts f) := by
  by_cases hnode : ∃ node, v p.parts = some node ∧ node.isDir = true
  · obtain ⟨node, hv, hisDir⟩ := hnode
    have hset : v.modify p.parts f = v.set p.parts (some (f node)) := by
      funext parts
      unfold View.modify View.set
      split
      · next hparts => rw [hparts, hv, Option.map_some]
      · rfl
    rw [hset, ← Path.key_true, ← hisDir]
    exact h.update hv (hdir node)
  · have hget : nodes.get? p.dirKey = none := by
      rw [h.get?_dirKey, Option.filter_eq_none_iff]
      exact fun node hv hisDir => hnode ⟨node, hv, hisDir⟩
    have hsame : v.modify p.parts f = v := by
      funext parts
      unfold View.modify
      split
      · next hparts =>
        rw [hparts]
        cases hv : v p.parts with
        | none => rfl
        | some node =>
          rw [Option.map_some, hfile node]
          exact Bool.not_eq_true _ ▸ fun hisDir => hnode ⟨node, hv, hisDir⟩
      · rfl
    rw [hsame, Dictionary.update, hget]
    exact h

end Represents

end Workbench.FileSystem
