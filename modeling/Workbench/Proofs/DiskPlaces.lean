import Mathlib.Tactic.SplitIfs
import Workbench.Host.Disk
import Workbench.Proofs.Granted

set_option autoImplicit false

/-! # Places on a disk

A place is the list of names that leads to a node from the root. What matters of the node there is
its shape: a directory, or a file with certain bytes. Putting a leaf somewhere changes the shape of
that place alone. A path whose walk succeeds leads to a place that can be told from its text, since
walking only checks that what stands on the way are directories. -/

namespace Workbench

/-- What a node is: a directory, or a file with its bytes. -/
inductive Shape where
  | file (data : ByteArray)
  | dir

namespace Tree

variable {α : Type}

/-- What the topmost node is. -/
def shape : Tree α → Shape
  | .file data _ => .file data
  | .dir .. => .dir

/-- The names that may be walked from the topmost node lead no further. -/
def IsLeaf (t : Tree α) : Prop := ∀ name rest, t.get? (name :: rest) = none

theorem isLeaf_file (data : ByteArray) (a : α) : (Tree.file data a).IsLeaf := fun _ _ => rfl

theorem isLeaf_emptyDir (a : α) : (Tree.dir [] a).IsLeaf := fun _ _ => rfl

theorem get?_append (t : Tree α) (place rest : List String) :
    t.get? (place ++ rest) = (t.get? place).bind (·.get? rest) := by
  induction place generalizing t with
  | nil => rfl
  | cons name place ih =>
    simp only [List.cons_append, get?]
    cases t.child? name with
    | none => rfl
    | some node => exact ih node

theorem lookup_replaceNode (name other : String) (node : Tree α)
    (children : List (String × Tree α)) :
    (replaceNode name node children).lookup other =
      if other = name then (children.lookup name).map fun _ => node else children.lookup other := by
  induction children with
  | nil => simp [replaceNode]
  | cons entry children ih =>
    obtain ⟨n, t⟩ := entry
    by_cases hn : n = name
    · subst hn
      by_cases hother : other = n
      · subst hother
        simp [replaceNode]
      · have hfalse : (other == n) = false := by simpa using hother
        simp [replaceNode, List.lookup_cons, hfalse, hother]
    · rw [replaceNode, if_neg hn, List.lookup_cons, List.lookup_cons, List.lookup_cons, ih]
      have hfalse : (name == n) = false := by simpa using Ne.symm hn
      by_cases hother : other = n
      · subst hother
        simp [hn]
      · have hfalse' : (other == n) = false := by simpa using hother
        rw [hfalse, hfalse']

/-- From where a node was changed on, a walk goes through the changed node. -/
theorem get?_modify_append (f : Tree α → Tree α) (place rest : List String) (t : Tree α) :
    (t.modify f place).get? (place ++ rest) =
      (t.get? place).bind fun node => (f node).get? rest := by
  induction place generalizing t with
  | nil => rw [modify, List.nil_append]; rfl
  | cons name place ih =>
    cases t with
    | file data a => rfl
    | dir children a =>
      rw [modify, List.cons_append]
      cases hnode : children.lookup name with
      | none => simp only [get?, child?, hnode, Option.bind_none]
      | some node =>
        simp only [get?, child?, hnode, lookup_replaceNode, if_true, Option.map_some]
        exact ih node

/-- A change somewhere shows in no shape above it or beside it. -/
theorem shape_get?_modify (f : Tree α → Tree α) {place other : List String} (t : Tree α)
    (h : ¬ place <+: other) :
    ((t.modify f place).get? other).map shape = (t.get? other).map shape := by
  induction place generalizing t other with
  | nil => exact absurd List.nil_prefix h
  | cons name place ih =>
    cases t with
    | file data a => rfl
    | dir children a =>
      rw [modify]
      cases hnode : children.lookup name with
      | none => rfl
      | some node =>
        cases other with
        | nil => rfl
        | cons n other =>
          simp only [get?, child?, lookup_replaceNode]
          by_cases hn : n = name
          · subst hn
            rw [if_pos rfl, hnode, Option.map_some]
            exact ih node fun hpre => h (List.cons_prefix_cons.2 ⟨rfl, hpre⟩)
          · rw [if_neg hn]

theorem get?_setChild (name other : String) (node : Tree α) (children : List (String × Tree α))
    (a : α) (rest : List String) :
    (setChild id name node (.dir children a)).get? (other :: rest) =
      if other = name then node.get? rest else (Tree.dir children a).get? (other :: rest) := by
  rw [setChild]
  cases hold : children.lookup name with
  | some old =>
    simp only [Option.isSome_some, if_true, get?, child?, lookup_replaceNode, hold, Option.map_some]
    by_cases hother : other = name
    · rw [if_pos hother, if_pos hother]
    · rw [if_neg hother, if_neg hother]
  | none =>
    simp only [Option.isSome_none, Bool.false_eq_true, if_false, get?, child?, List.lookup_append]
    by_cases hother : other = name
    · subst hother
      simp [hold]
    · have hfalse : (other == name) = false := by simpa using hother
      simp [hother, List.lookup_cons, hfalse]

/-- A leaf that is put where no directory with children is changes the shape of its place alone. -/
theorem shape_get?_put {t node : Tree α} {dir : List String} (name : String)
    (hdir : (t.get? dir).map shape = some .dir) (hleaf : node.IsLeaf)
    (hold : ∀ old, t.get? (dir ++ [name]) = some old → old.IsLeaf) (other : List String) :
    ((t.put id (dir ++ [name]) node).get? other).map shape =
      if other = dir ++ [name] then some node.shape else (t.get? other).map shape := by
  have hput : t.put id (dir ++ [name]) node = t.modify (setChild id name node) dir := by
    rw [put, List.getLast?_concat, List.dropLast_concat]
  rw [hput]
  by_cases hpre : dir <+: other
  · -- below the directory only what goes through the name can have changed
    obtain ⟨rest, rfl⟩ := hpre
    obtain ⟨top, htop, hshape⟩ := Option.map_eq_some_iff.1 hdir
    rw [get?_modify_append, htop, Option.bind_some, get?_append, htop, Option.bind_some]
    cases top with
    | file data a => cases hshape
    | dir children a =>
      cases rest with
      | nil =>
        rw [if_neg (by simp), setChild]
        split <;> rfl
      | cons n rest =>
        rw [get?_setChild]
        by_cases hn : n = name
        · subst hn
          cases rest with
          | nil => rw [if_pos rfl, if_pos rfl]; rfl
          | cons m rest =>
            rw [if_pos rfl, hleaf, if_neg (by simp)]
            have hbelow : t.get? (dir ++ [n] ++ m :: rest) = none := by
              rw [get?_append]
              cases hold' : t.get? (dir ++ [n]) with
              | none => rfl
              | some old => exact hold old hold' m rest
            rw [List.append_assoc, List.singleton_append, get?_append, htop,
              Option.bind_some] at hbelow
            rw [hbelow]
        · rw [if_neg hn, if_neg]
          intro heq
          exact hn (List.cons.inj (List.append_cancel_left heq)).1
  · rw [shape_get?_modify _ t hpre, if_neg]
    rintro rfl
    exact hpre (List.prefix_append dir [name])

end Tree

namespace Host

namespace Disk

/-! ## Where paths lead -/

/-- Go by one piece of a path, as if all directories were there. -/
def advance (place : List String) (piece : String) : List String :=
  if piece = "." then place else if piece = ".." then place.dropLast else place ++ [piece]

/-- The pieces of a path that count. -/
def piecesOf (text : String) : List String := (Location.pieces text).filter (· ≠ "")

/-- The place that a path leads to once the directories on its way are there. -/
def placeOf (d : Disk) (text : String) : List String :=
  (piecesOf text).foldl advance (if Location.isRooted text then [] else d.cwd)

/-- What is at a place. -/
def shapeAt (d : Disk) (place : List String) : Option Shape := (d.tree.get? place).map Tree.shape

theorem enter_eq_ok_iff {d : Disk} {dir dir' : List String} {piece : String} :
    d.enter dir piece = .ok dir' ↔ dir' = advance dir piece ∧
      (piece = "." ∨ piece = ".." ∨
        checkName piece = .ok () ∧ d.shapeAt (dir ++ [piece]) = some .dir) := by
  unfold enter advance shapeAt
  split_ifs with hhere habove
  · simp [hhere, eq_comm]
  · simp [habove, eq_comm]
  · cases hname : checkName piece with
    | error e => simp [bind, Except.bind, hhere, habove]
    | ok =>
      cases d.tree.get? (dir ++ [piece]) with
      | none => simp [bind, Except.bind, refuse, hhere, habove]
      | some node =>
        cases node <;> simp [bind, Except.bind, refuse, Tree.shape, hhere, habove, eq_comm]

/-- A walk goes through all pieces but the last, which it leaves to the request. -/
inductive Walked (d : Disk) (text : String) : Spot → Prop where
  | root : piecesOf text = [] → Walked d text ⟨[], .root, true⟩
  | last {pieces dir : List String} {piece : String} : piecesOf text = pieces ++ [piece] →
      pieces.foldlM d.enter (if Location.isRooted text then [] else d.cwd) = .ok dir →
      Walked d text ⟨dir,
        if piece = "." then .here else if piece = ".." then .above else .name piece,
        text.toList.getLast? = some '/'⟩

theorem walk_eq_ok_iff {d : Disk} {text : String} {s : Spot} :
    d.walk text = .ok s ↔ (text.toList.contains '\x00' = false ∧ text.isEmpty = false ∧
      text.utf8ByteSize < maxPath) ∧ d.Walked text s := by
  unfold walk
  by_cases hnul : text.toList.contains '\x00' = true
  · rw [if_pos hnul]
    exact iff_of_false (by simp) fun h => Bool.false_ne_true (h.1.1.symm.trans hnul)
  rw [if_neg hnul]
  by_cases hempty : text.isEmpty = true
  · rw [if_pos hempty]
    exact iff_of_false (by simp [refuse]) fun h => Bool.false_ne_true (h.1.2.1.symm.trans hempty)
  rw [if_neg hempty]
  by_cases hlong : text.utf8ByteSize ≥ maxPath
  · rw [if_pos hlong]
    exact iff_of_false (by simp [refuse]) fun h => Nat.not_lt.2 hlong h.1.2.2
  rw [if_neg hlong, and_iff_right ⟨Bool.not_eq_true _ ▸ hnul, Bool.not_eq_true _ ▸ hempty,
    Nat.lt_of_not_le hlong⟩]
  rcases List.eq_nil_or_concat (piecesOf text) with hnil | ⟨pieces, piece, hpieces⟩
  · have hlast : ((Location.pieces text).filter (· ≠ "")).getLast? = none := by
      rw [← piecesOf, hnil, List.getLast?_nil]
    simp only [hlast]
    constructor
    · rintro ⟨⟩
      exact .root hnil
    · rintro (- | ⟨hpieces, -⟩)
      · rfl
      · simp [hnil] at hpieces
  · rw [List.concat_eq_append] at hpieces
    have hlast : ((Location.pieces text).filter (· ≠ "")).getLast? = some piece := by
      rw [← piecesOf, hpieces, List.getLast?_concat]
    have hinit : ((Location.pieces text).filter (· ≠ "")).dropLast = pieces := by
      rw [← piecesOf, hpieces, List.dropLast_concat]
    simp only [hlast, hinit]
    constructor
    · intro h
      cases hdir : pieces.foldlM d.enter (if Location.isRooted text then [] else d.cwd) with
      | error e =>
        rw [hdir] at h
        cases h
      | ok dir =>
        rw [hdir] at h
        cases h
        exact .last hpieces hdir
    · rintro (hnil | ⟨hpieces', hdir⟩)
      · simp [hpieces] at hnil
      · rw [hpieces] at hpieces'
        obtain ⟨rfl, hpiece⟩ := List.append_inj' hpieces' rfl
        obtain rfl := List.singleton_inj.1 hpiece
        rw [hdir]
        rfl

/-- The working directory is there. -/
def Grounded (d : Disk) : Prop := d.shapeAt d.cwd = some .dir

/-- The form of it that can be run. -/
theorem grounded_of_isDir {d : Disk} (h : (d.tree.get? d.cwd).any Tree.isDir = true) :
    d.Grounded := by
  unfold Grounded shapeAt
  cases hnode : d.tree.get? d.cwd with
  | none => simp [hnode] at h
  | some node =>
    cases node with
    | file data mode => simp [hnode, Tree.isDir] at h
    | dir children mode => rfl

/-- Above everything are directories. -/
theorem shapeAt_above {d : Disk} {place : List String} (name : String) (rest : List String)
    (h : (d.shapeAt (place ++ name :: rest)).isSome) : d.shapeAt place = some .dir := by
  unfold shapeAt at h ⊢
  rw [Option.isSome_map, Tree.get?_append] at h
  cases hnode : d.tree.get? place with
  | none => simp [hnode] at h
  | some node =>
    cases node with
    | file data mode => simp [hnode, Tree.get?, Tree.child?] at h
    | dir children mode => rfl

theorem shapeAt_dropLast {d : Disk} {place : List String} (h : d.shapeAt place = some .dir) :
    d.shapeAt place.dropLast = some .dir := by
  rcases List.eq_nil_or_concat place with rfl | ⟨above, name, rfl⟩
  · exact h
  · rw [List.concat_eq_append] at h ⊢
    rw [List.dropLast_concat]
    exact shapeAt_above name [] (by rw [h]; rfl)

theorem enter_advance {d : Disk} {dir dir' : List String} {piece : String}
    (hdir : d.shapeAt dir = some .dir) (h : d.enter dir piece = .ok dir') :
    d.shapeAt dir' = some .dir := by
  obtain ⟨rfl, hpiece⟩ := enter_eq_ok_iff.1 h
  unfold advance
  split_ifs with hhere habove
  · exact hdir
  · exact shapeAt_dropLast hdir
  · exact (hpiece.resolve_left hhere |>.resolve_left habove).2

/-- Going by pieces leads to a directory, which can be told from them. -/
theorem foldlM_enter {d : Disk} {pieces dir dir' : List String}
    (h : pieces.foldlM d.enter dir = .ok dir') :
    dir' = pieces.foldl advance dir ∧
      (d.shapeAt dir = some .dir → d.shapeAt dir' = some .dir) := by
  induction pieces generalizing dir with
  | nil =>
    cases h
    exact ⟨rfl, id⟩
  | cons piece pieces ih =>
    rw [List.foldlM_cons] at h
    cases hnext : d.enter dir piece with
    | error e =>
      rw [hnext] at h
      cases h
    | ok next =>
      rw [hnext] at h
      obtain ⟨hplace, hkept⟩ := ih h
      obtain ⟨rfl, -⟩ := enter_eq_ok_iff.1 hnext
      exact ⟨hplace, fun hdir => hkept (enter_advance hdir hnext)⟩

theorem Grounded.root {d : Disk} (h : d.Grounded) : d.shapeAt [] = some .dir := by
  unfold Grounded at h
  cases hcwd : d.cwd with
  | nil => rwa [hcwd] at h
  | cons name rest => exact shapeAt_above name rest (by rw [List.nil_append, ← hcwd, h]; rfl)

theorem Grounded.start {d : Disk} (h : d.Grounded) (text : String) :
    d.shapeAt (if Location.isRooted text then [] else d.cwd) = some .dir := by
  split_ifs
  · exact h.root
  · exact h

/-- A path of slashes alone is the root. -/
theorem isRooted_of_piecesOf {text : String} (hempty : text.isEmpty = false)
    (hpieces : piecesOf text = []) : Location.isRooted text = true := by
  unfold piecesOf Location.pieces at hpieces
  rw [List.filter_eq_nil_iff] at hpieces
  cases hchars : text.toList with
  | nil =>
    rw [String.toList_eq_nil_iff] at hchars
    simp [hchars] at hempty
  | cons c rest =>
    by_cases hc : c = '/'
    · simp [Location.isRooted, hchars, hc]
    · obtain ⟨piece, more, -, hsplit⟩ := Text.splitOn_cons_of_ne hc rest
      rw [hchars, hsplit] at hpieces
      have hfirst := hpieces (String.ofList (c :: piece)) List.mem_cons_self
      simp at hfirst

/-- A walk leads where the text says. -/
theorem walk_parts {d : Disk} {text : String} {s : Spot} (h : d.walk text = .ok s) :
    s.parts = d.placeOf text := by
  obtain ⟨⟨-, hempty, -⟩, hwalked⟩ := walk_eq_ok_iff.1 h
  rcases hwalked with hpieces | ⟨hpieces, hdir⟩
  · rw [placeOf, hpieces, isRooted_of_piecesOf hempty hpieces]
    rfl
  · rw [placeOf, hpieces, List.foldl_append, ← (foldlM_enter hdir).1]
    simp only [List.foldl_cons, List.foldl_nil, advance]
    split_ifs <;> rfl

/-- What a walk finds last is in a directory. -/
theorem walk_dir {d : Disk} (hd : d.Grounded) {text : String} {s : Spot} (h : d.walk text = .ok s) :
    d.shapeAt s.dir = some .dir := by
  rcases (walk_eq_ok_iff.1 h).2 with - | ⟨-, hdir⟩
  · exact hd.root
  · exact (foldlM_enter hdir).2 (hd.start text)

/-- As long as directories stay, the same pieces can be gone. -/
theorem foldlM_enter_of_dirs {d d' : Disk}
    (hdirs : ∀ place, d.shapeAt place = some .dir → d'.shapeAt place = some .dir)
    {pieces dir dir' : List String} (h : pieces.foldlM d.enter dir = .ok dir') :
    pieces.foldlM d'.enter dir = .ok dir' := by
  induction pieces generalizing dir with
  | nil => exact h
  | cons piece pieces ih =>
    rw [List.foldlM_cons] at h ⊢
    cases hnext : d.enter dir piece with
    | error e =>
      rw [hnext] at h
      cases h
    | ok next =>
      obtain ⟨hplace, hpiece⟩ := enter_eq_ok_iff.1 hnext
      rw [enter_eq_ok_iff.2 ⟨hplace, hpiece.imp_right (Or.imp_right (And.imp_right (hdirs _)))⟩]
      rw [hnext] at h
      exact ih h

/-- As long as directories stay, a walk goes as before. -/
theorem walk_of_dirs {d d' : Disk} (hcwd : d'.cwd = d.cwd)
    (hdirs : ∀ place, d.shapeAt place = some .dir → d'.shapeAt place = some .dir)
    {text : String} {s : Spot} (h : d.walk text = .ok s) : d'.walk text = .ok s := by
  rw [walk_eq_ok_iff] at h ⊢
  refine ⟨h.1, ?_⟩
  rcases h.2 with hpieces | ⟨hpieces, hdir⟩
  · exact .root hpieces
  · exact .last hpieces (hcwd ▸ foldlM_enter_of_dirs hdirs hdir)

/-! ## Reading -/

theorem shapeAt_parts (d : Disk) (s : Spot) : d.shapeAt s.parts = (d.node? s).map Tree.shape := rfl

/-- The last piece of a path is no name that is too long. -/
def Allowed (s : Spot) : Prop := ∀ n, s.last = .name n → checkName n = .ok ()

theorem find_eq_ok_iff {d : Disk} {text : String} {parts : List String} {node : Tree Nat} :
    d.find text = .ok (parts, node) ↔ ∃ s, d.walk text = .ok s ∧ Allowed s ∧ s.parts = parts ∧
      d.node? s = some node ∧ (s.slash && node.isFile) = false := by
  unfold find
  rw [bind_eq_ok_iff]
  refine exists_congr fun s => and_congr_right fun _ => ?_
  cases hnode : d.node? s with
  | none =>
    refine iff_of_false ?_ (by simp)
    dsimp only
    split
    · rw [bind_eq_ok_iff]
      rintro ⟨-, -, h⟩
      cases h
    · rintro ⟨⟩
  | some found =>
    have hend : (if s.slash && found.isFile then refuse .notDir else pure (s.parts, found)) =
        Except.ok (parts, node) ↔
          s.parts = parts ∧ some found = some node ∧ (s.slash && node.isFile) = false := by
      by_cases hslash : (s.slash && found.isFile) = true
      · rw [if_pos hslash]
        refine iff_of_false (by simp [refuse]) ?_
        rintro ⟨-, ⟨⟩, hfalse⟩
        exact Bool.false_ne_true (hfalse.symm.trans hslash)
      · rw [if_neg hslash, pure_eq_ok_iff, Prod.mk.injEq, Option.some_inj]
        refine and_congr_right fun _ => (and_iff_left_of_imp ?_).symm
        rintro rfl
        exact Bool.eq_false_iff.2 hslash
    dsimp only
    split
    · next n hlast =>
      have hallowed : Allowed s ↔ ∃ u, checkName n = .ok u := by
        rw [Allowed, hlast]
        exact ⟨fun h => ⟨(), h n rfl⟩, fun ⟨_, h⟩ n' heq => Last.name.inj heq ▸ h⟩
      rw [bind_eq_ok_iff, exists_and_right, ← hallowed]
      exact and_congr_right fun _ => hend
    · next hlast =>
      have hallowed : Allowed s := fun n hn => absurd hn (hlast n)
      rw [and_iff_right hallowed]
      exact hend

theorem read_eq_ok_iff {d : Disk} {text : String} {bytes : ByteArray} :
    d.read text = .ok bytes ↔ ∃ s, d.walk text = .ok s ∧ Allowed s ∧ s.slash = false ∧
      d.shapeAt s.parts = some (.file bytes) := by
  unfold read
  rw [bind_eq_ok_iff]
  constructor
  · rintro ⟨⟨parts, node⟩, hfind, hread⟩
    obtain ⟨s, hwalk, hallowed, rfl, hnode, hslash⟩ := find_eq_ok_iff.1 hfind
    cases node with
    | dir children mode => cases hread
    | file data mode =>
      cases hread
      refine ⟨s, hwalk, hallowed, ?_, by rw [shapeAt_parts, hnode]; rfl⟩
      simpa [Tree.isFile, Tree.isDir] using hslash
  · rintro ⟨s, hwalk, hallowed, hslash, hshape⟩
    rw [shapeAt_parts, Option.map_eq_some_iff] at hshape
    obtain ⟨node, hnode, hfile⟩ := hshape
    cases node with
    | dir children mode => cases hfile
    | file data mode =>
      cases hfile
      exact ⟨_, find_eq_ok_iff.2 ⟨s, hwalk, hallowed, rfl, hnode, by rw [hslash]; rfl⟩, rfl⟩

/-- As long as directories stay, a file that could be read is read with what is in it then. -/
theorem read_of_dirs {d d' : Disk} (hcwd : d'.cwd = d.cwd)
    (hdirs : ∀ place, d.shapeAt place = some .dir → d'.shapeAt place = some .dir) {text : String}
    {bytes bytes' : ByteArray} (hread : d.read text = .ok bytes)
    (hfile : d'.shapeAt (d.placeOf text) = some (.file bytes')) : d'.read text = .ok bytes' := by
  obtain ⟨s, hwalk, hallowed, hslash, -⟩ := read_eq_ok_iff.1 hread
  rw [← walk_parts hwalk] at hfile
  exact read_eq_ok_iff.2 ⟨s, walk_of_dirs hcwd hdirs hwalk, hallowed, hslash, hfile⟩

end Disk

end Host

end Workbench
