import Mathlib.Data.List.Infix
import Workbench.Proofs.SparedFiles

set_option autoImplicit false

/-! # What staged writing leaves in a directory

A file in a directory that is there is replaced without a trace: if the request is granted the file
is the only thing that has changed in the directory, and if it is refused nothing has. For the
directories that are made first stand on the way of the path, and those are there already; and what
is staged has a name of its own, under which nothing is left.

A directory that is removed and made again is empty. -/

namespace Workbench.Host

namespace Location

/-- The pieces of a path put together are the components that it was put together from. -/
theorem pieces_intercalate {parts : List String} (hne : parts ≠ [])
    (h : ∀ part ∈ parts, '/' ∉ part.toList) : pieces ("/".intercalate parts) = parts := by
  have hsplit : ∀ parts : List String, parts ≠ [] → (∀ part ∈ parts, '/' ∉ part.toList) →
      Text.splitOn '/' (List.intercalate ['/'] (parts.map String.toList)) =
        parts.map String.toList := by
    intro parts hne h
    induction parts with
    | nil => exact absurd rfl hne
    | cons part parts ih =>
      have hpart := h part List.mem_cons_self
      cases parts with
      | nil => simpa [List.intercalate] using Text.splitOn_of_notMem hpart
      | cons next parts =>
        have hrest := ih (by simp) fun p hp => h p (List.mem_cons_of_mem _ hp)
        have hcons : List.intercalate ['/'] ((part :: next :: parts).map String.toList) =
            part.toList ++ '/' :: List.intercalate ['/'] ((next :: parts).map String.toList) := by
          simp [List.intercalate]
        rw [hcons, Text.splitOn_append_sep, Text.splitOn_of_notMem hpart, hrest]
        rfl
  rw [pieces, String.toList_intercalate, show "/".toList = ['/'] from rfl, hsplit parts hne h]
  simp

theorem slash_notMem_of_mem_pieces {text piece : String} (h : piece ∈ pieces text) :
    '/' ∉ piece.toList := by
  obtain ⟨chars, hchars, rfl⟩ := List.mem_map.1 h
  rw [String.toList_ofList]
  exact fun hmem => (Text.mem_of_mem_splitOn hchars '/' hmem).2 rfl

/-- A path that begins with a slash has an empty piece before it. -/
theorem isRooted_of_notMem_pieces {text : String} (h : "" ∉ pieces text) :
    isRooted text = false := by
  rw [Bool.eq_false_iff]
  intro hrooted
  rw [isRooted, decide_eq_true_eq, List.head?_eq_some_iff] at hrooted
  obtain ⟨rest, hrest⟩ := hrooted
  refine h ?_
  rw [pieces, hrest, Text.splitOn_cons_sep]
  exact List.mem_cons_self

end Location

namespace Disk

variable {d d' d'' : Disk} {text : String}

/-! ## The way of a path -/

/-- The pieces of a path that lead somewhere. -/
def wayOf (text : String) : List String :=
  (Location.pieces text).filter fun piece => piece ≠ "" ∧ piece ≠ "."

theorem wayOf_eq (text : String) : wayOf text = (piecesOf text).filter (· ≠ ".") := by
  rw [wayOf, piecesOf, List.filter_filter]
  exact List.filter_congr fun piece _ => by simp [Bool.and_comm]

/-- Where a path starts. -/
def startOf (d : Disk) (text : String) : List String :=
  if Location.isRooted text then [] else d.cwd

theorem placeOf_eq_way (d : Disk) (text : String) :
    d.placeOf text = (wayOf text).foldl advance (d.startOf text) :=
  Package.foldl_advance_filter _ _

/-- Paths with the same way lead to the same place. -/
theorem placeOf_of_way {other : String} (d : Disk) (hway : wayOf text = wayOf other)
    (hrooted : Location.isRooted text = Location.isRooted other) :
    d.placeOf text = d.placeOf other := by
  rw [placeOf_eq_way, placeOf_eq_way, startOf, startOf, hway, hrooted]

/-- A path leads through a place, or to it. -/
def OnWay (d : Disk) (text : String) (place : List String) : Prop :=
  ∃ pieces, pieces <+: wayOf text ∧ place = pieces.foldl advance (d.startOf text)

theorem onWay_placeOf (d : Disk) (text : String) : d.OnWay text (d.placeOf text) :=
  ⟨wayOf text, List.prefix_rfl, d.placeOf_eq_way text⟩

/-- A path that goes a part of the way of another one. -/
structure Along (sub text : String) : Prop where
  way : wayOf sub <+: wayOf text
  rooted : Location.isRooted sub = Location.isRooted text

theorem OnWay.along {sub : String} (h : Along sub text) {place : List String}
    (hplace : d.OnWay sub place) : d.OnWay text place := by
  obtain ⟨pieces, hpieces, rfl⟩ := hplace
  exact ⟨pieces, hpieces.trans h.way, by rw [startOf, startOf, h.rooted]⟩

/-- A name goes on from where its base has led. -/
theorem wayOf_join (root : String) {name : String} (hname : Path.isComponent name = true) :
    wayOf (Location.join root name) = wayOf root ++ [name] := by
  have hproper : name ≠ "." := (Path.plain_of_isComponent hname).2.1
  rw [wayOf_eq, wayOf_eq, Package.piecesOf_join_name root hname, List.filter_append]
  simp [hproper]

theorem wayOf_toText {l : Location} (hparts : ∀ part ∈ l.parts, part ≠ "" ∧ '/' ∉ part.toList) :
    wayOf l.toText = l.parts.filter (· ≠ ".") ∧ Location.isRooted l.toText = l.isAbsolute := by
  have hfilter : l.parts.filter (fun piece => piece ≠ "" ∧ piece ≠ ".") =
      l.parts.filter (· ≠ ".") :=
    List.filter_congr fun part hpart => by simp [(hparts part hpart).1]
  by_cases hnil : l.parts = []
  · rw [wayOf, Location.toText, hnil]
    cases l.isAbsolute <;> exact ⟨rfl, rfl⟩
  have hown := Location.pieces_intercalate hnil fun part hpart => (hparts part hpart).2
  rw [wayOf, Location.toText, ← hfilter]
  cases l.isAbsolute with
  | true =>
    have hpieces : Location.pieces ("/" ++ "/".intercalate l.parts) = "" :: l.parts := by
      rw [Location.pieces, String.toList_append, show "/".toList = ['/'] from rfl,
        List.singleton_append, Text.splitOn_cons_sep, List.map_cons, ← Location.pieces, hown]
    refine ⟨?_, by simp [Location.isRooted, String.toList_append]⟩
    rw [if_pos rfl, hpieces, List.filter_cons_of_neg (by simp)]
  | false =>
    rw [if_neg Bool.false_ne_true, String.empty_append, hown]
    refine ⟨rfl, Location.isRooted_of_notMem_pieces ?_⟩
    rw [hown]
    exact fun hmem => (hparts "" hmem).1 rfl

theorem proper_of_mem_ofText {part : String} (h : part ∈ (Location.ofText text).parts) :
    part ≠ "" ∧ '/' ∉ part.toList := by
  have hnamed : ∀ part ∈ wayOf text, part ≠ "" ∧ '/' ∉ part.toList := by
    intro part hpart
    obtain ⟨hpiece, hproper⟩ := List.mem_filter.1 hpart
    exact ⟨(of_decide_eq_true hproper).1, Location.slash_notMem_of_mem_pieces hpiece⟩
  rw [Location.ofText] at h
  dsimp only at h
  split at h
  · rcases List.mem_cons.1 h with rfl | h
    · decide
    · exact hnamed part h
  · exact hnamed part h

/-- The components of a path are its way, but for a dot at its start. -/
theorem ofText_parts (text : String) :
    (Location.ofText text).parts = wayOf text ∨
      (Location.ofText text).parts = "." :: wayOf text := by
  rw [Location.ofText]
  dsimp only
  split
  · exact Or.inr rfl
  · exact Or.inl rfl

theorem filter_wayOf (text : String) : (wayOf text).filter (· ≠ ".") = wayOf text := by
  rw [List.filter_eq_self]
  intro piece hpiece
  simpa using (of_decide_eq_true (List.mem_filter.1 hpiece).2).2

theorem filter_ofText_parts (text : String) :
    (Location.ofText text).parts.filter (· ≠ ".") = wayOf text := by
  rcases ofText_parts text with hparts | hparts <;> rw [hparts]
  · exact filter_wayOf text
  · rw [List.filter_cons_of_neg (by simp), filter_wayOf]

/-- The first components of a path are a part of its way. -/
theorem along_take (text : String) (n : Nat) :
    Along { Location.ofText text with parts := (Location.ofText text).parts.take n }.toText
      text := by
  obtain ⟨hway, hrooted⟩ :=
    wayOf_toText (l := { Location.ofText text with parts := (Location.ofText text).parts.take n })
      fun part hpart => proper_of_mem_ofText (List.mem_of_mem_take hpart)
  refine ⟨?_, hrooted⟩
  rw [hway, ← filter_ofText_parts text]
  exact (List.take_prefix n _).filter _

/-! ## Directories that are new -/

/-- Nothing is new on a disk but directories on the way of a path. -/
structure PavedOn (text : String) (d d' : Disk) : Prop where
  cwd : d'.cwd = d.cwd
  shapes : ∀ place, d'.shapeAt place = d.shapeAt place ∨
    d.OnWay text place ∧ d.shapeAt place = none ∧ d'.shapeAt place = some .dir

theorem PavedOn.kept (h : PavedOn text d d') {place : List String} {shape : Shape}
    (hshape : d.shapeAt place = some shape) : d'.shapeAt place = some shape := by
  rcases h.shapes place with hsame | ⟨-, hnone, -⟩
  · rw [hsame, hshape]
  · cases hnone.symm.trans hshape

theorem PavedOn.onWay (h : PavedOn text d d') {other : String} {place : List String} :
    d'.OnWay other place ↔ d.OnWay other place := by
  rw [OnWay, OnWay, startOf, startOf, h.cwd]

instance : IsPreorder Disk (PavedOn text) where
  refl d := ⟨rfl, fun _ => Or.inl rfl⟩
  trans d d' d'' h h' := by
    refine ⟨h'.cwd.trans h.cwd, fun place => ?_⟩
    rcases h'.shapes place with hsame | ⟨hway, hnone, hdir⟩
    · rw [hsame]
      exact h.shapes place
    · rcases h.shapes place with hsame | ⟨-, -, hthere⟩
      · exact Or.inr ⟨h.onWay.1 hway, hsame ▸ hnone, hdir⟩
      · cases hnone.symm.trans hthere

/-- Where there is no directory nothing is put. -/
theorem shapeAt_put_of_not_dir {dir : List String} {name : String} {node : Tree Nat}
    (hdir : d.shapeAt dir ≠ some .dir) (place : List String) :
    (d.put (dir ++ [name]) node).shapeAt place = d.shapeAt place := by
  by_cases hpre : dir <+: place
  · obtain ⟨rest, rfl⟩ := hpre
    rw [put, Tree.put, List.getLast?_concat, List.dropLast_concat, shapeAt, shapeAt,
      Tree.get?_modify_append, Tree.get?_append]
    rw [shapeAt] at hdir
    cases hnode : d.tree.get? dir with
    | none => rfl
    | some top =>
      cases top with
      | file data mode => rfl
      | dir children mode => exact absurd (by rw [hnode]; rfl) hdir
  · have hput := Tree.shape_get?_put_beside d.tree node
      fun hpre' : dir ++ [name] <+: place => hpre ((List.prefix_append dir [name]).trans hpre')
    exact hput

theorem makeDir_pavedOn {sub : String} (halong : Along sub text) (h : d.makeDir sub = .ok d') :
    PavedOn text d d' := by
  obtain ⟨s, n, hwalk, hlast, -, hnone, rfl⟩ := makeDir_cases h
  refine ⟨rfl, fun place => ?_⟩
  by_cases hdir : d.shapeAt s.dir = some .dir
  · rw [shapeAt_makeDir hdir hnone]
    split_ifs with hplace
    · subst hplace
      refine Or.inr ⟨OnWay.along halong ?_, hnone, rfl⟩
      have hparts : s.parts = s.dir ++ [n] := by rw [Spot.parts, hlast]
      rw [← hparts, walk_parts hwalk]
      exact d.onWay_placeOf sub
    · exact Or.inl rfl
  · exact Or.inl (shapeAt_put_of_not_dir hdir place)

/-! ## A directory that is there -/

theorem isDir_eq_true_iff : d.isDir text = true ↔
    ∃ s, d.walk text = .ok s ∧ Allowed s ∧ d.shapeAt s.parts = some .dir := by
  rw [isDir, Option.any_eq_true]
  constructor
  · rintro ⟨⟨parts, node⟩, hfound, hdir⟩
    obtain ⟨s, hwalk, hallowed, rfl, hnode, -⟩ := find_eq_ok_iff.1 (toOption_eq_some_iff.1 hfound)
    refine ⟨s, hwalk, hallowed, ?_⟩
    rw [shapeAt_parts, hnode]
    cases node with
    | file data mode => cases hdir
    | dir children mode => rfl
  · rintro ⟨s, hwalk, hallowed, hshape⟩
    rw [shapeAt_parts] at hshape
    obtain ⟨node, hnode, hshape⟩ := Option.map_eq_some_iff.1 hshape
    have hdir : node.isDir = true := by
      cases node with
      | file data mode => cases hshape
      | dir children mode => rfl
    refine ⟨(s.parts, node), toOption_eq_some_iff.2 ?_, hdir⟩
    exact find_eq_ok_iff.2 ⟨s, hwalk, hallowed, rfl, hnode, by simp [Tree.isFile, hdir]⟩

/-- A directory can be listed. -/
theorem exists_list (h : d.isDir text = true) : ∃ children, d.list text = .ok children := by
  rw [isDir, Option.any_eq_true] at h
  obtain ⟨⟨parts, node⟩, hfound, hdir⟩ := h
  cases node with
  | file data mode => cases hdir
  | dir children mode =>
    exact ⟨children, bind_eq_ok_iff.2 ⟨_, toOption_eq_some_iff.1 hfound, rfl⟩⟩

theorem isDir_of_list {children : List (String × Tree Nat)} (h : d.list text = .ok children) :
    d.isDir text = true := by
  obtain ⟨⟨parts, node⟩, hfound, h⟩ := bind_eq_ok_iff.1 h
  cases node with
  | file data mode => cases h
  | dir others mode =>
    rw [isDir, Option.any_eq_true]
    exact ⟨_, toOption_eq_some_iff.2 hfound, rfl⟩

/-- The names on the list of a directory are those of what is in it. -/
theorem mem_names_iff {children : List (String × Tree Nat)} (h : d.list text = .ok children)
    (name : String) :
    name ∈ children.map Prod.fst ↔ (d.shapeAt (d.placeOf text ++ [name])).isSome := by
  rw [Job.shapeAt_child h, Option.isSome_map, List.lookup_isSome_iff, List.mem_map]
  refine exists_congr fun child => and_congr_right fun _ => ?_
  rw [beq_iff_eq, eq_comm]

theorem shapeAt_of_isDir (h : d.isDir text = true) : d.shapeAt (d.placeOf text) = some .dir := by
  obtain ⟨s, hwalk, -, hshape⟩ := isDir_eq_true_iff.1 h
  rwa [← walk_parts hwalk]

/-- As long as directories stay, a directory is found. -/
theorem Housed.isDir (h : Housed d d') (hdir : d.isDir text = true) : d'.isDir text = true := by
  obtain ⟨s, hwalk, hallowed, hshape⟩ := isDir_eq_true_iff.1 hdir
  exact isDir_eq_true_iff.2 ⟨s, walk_of_dirs h.cwd h.dirs hwalk, hallowed, h.dirs _ hshape⟩

/-- All pieces of a path to a directory that is there can be gone. -/
theorem exists_foldlM_of_isDir (h : d.isDir text = true) :
    ∃ dir, (piecesOf text).foldlM d.enter (d.startOf text) = .ok dir := by
  obtain ⟨s, hwalk, hallowed, hshape⟩ := isDir_eq_true_iff.1 h
  rcases (walk_eq_ok_iff.1 hwalk).2 with hnil | ⟨hpieces, hdir⟩
  · exact ⟨_, by rw [hnil]; rfl⟩
  rename_i pieces dir piece
  have hlast : d.enter dir piece = .ok (advance dir piece) := by
    refine enter_eq_ok_iff.2 ⟨rfl, ?_⟩
    by_cases hhere : piece = "."
    · exact Or.inl hhere
    by_cases habove : piece = ".."
    · exact Or.inr (Or.inl habove)
    · simp only [Allowed, Spot.parts, if_neg hhere, if_neg habove] at hallowed hshape
      exact Or.inr (Or.inr ⟨hallowed piece rfl, hshape⟩)
  refine ⟨advance dir piece, ?_⟩
  rw [hpieces, List.foldlM_append, startOf, hdir]
  show ([piece].foldlM d.enter dir) = _
  rw [List.foldlM_cons, hlast]
  rfl

/-- Going by pieces leads through directories. -/
theorem shapeAt_of_prefix {pieces dir dir' first : List String}
    (hdir : d.shapeAt dir = some .dir) (h : pieces.foldlM d.enter dir = .ok dir')
    (hfirst : first <+: pieces.filter (· ≠ ".")) :
    d.shapeAt (first.foldl advance dir) = some .dir := by
  induction pieces generalizing dir first with
  | nil =>
    rw [List.filter_nil, List.prefix_nil] at hfirst
    rw [hfirst]
    exact hdir
  | cons piece pieces ih =>
    rw [List.foldlM_cons] at h
    obtain ⟨next, hnext, hrest⟩ := bind_eq_ok_iff.1 h
    have hthere := enter_advance hdir hnext
    obtain ⟨rfl, -⟩ := enter_eq_ok_iff.1 hnext
    by_cases hdot : piece = "."
    · rw [hdot, advance, if_pos rfl] at hrest
      rw [List.filter_cons_of_neg (by simp [hdot])] at hfirst
      exact ih hdir hrest hfirst
    · rw [List.filter_cons_of_pos (by simp [hdot])] at hfirst
      cases first with
      | nil => exact hdir
      | cons other first =>
        obtain ⟨rfl, htail⟩ := List.cons_prefix_cons.1 hfirst
        rw [List.foldl_cons]
        exact ih hthere hrest htail

/-- On the way to a directory are directories. -/
theorem shapeAt_of_onWay (hd : d.Grounded) (h : d.isDir text = true) {place : List String}
    (hway : d.OnWay text place) : d.shapeAt place = some .dir := by
  obtain ⟨first, hfirst, rfl⟩ := hway
  have hplace := shapeAt_of_isDir h
  obtain ⟨s, hwalk, -, -⟩ := isDir_eq_true_iff.1 h
  rcases (walk_eq_ok_iff.1 hwalk).2 with hnil | ⟨hpieces, hdir⟩
  · rw [wayOf_eq, hnil, List.filter_nil, List.prefix_nil] at hfirst
    rw [hfirst]
    exact hd.start text
  · rename_i pieces above last
    rw [placeOf_eq_way] at hplace
    rw [wayOf_eq, hpieces, List.filter_append] at hfirst hplace
    by_cases hdot : last = "."
    · rw [List.filter_cons_of_neg (by simp [hdot]), List.filter_nil, List.append_nil] at hfirst
      exact shapeAt_of_prefix (hd.start text) hdir hfirst
    · rw [List.filter_cons_of_pos (by simp [hdot]), List.filter_nil] at hfirst hplace
      rcases List.prefix_concat_iff.1 hfirst with rfl | hfirst
      · exact hplace
      · exact shapeAt_of_prefix (hd.start text) hdir hfirst

/-- What is read at a spot, given what is there. -/
def readSpot (s : Spot) (shape : Option Shape) : Except Error ByteArray := do
  if let .name n := s.last then checkName n
  match shape with
  | none => refuse .noEntry
  | some (.file data) => if s.slash then refuse .notDir else return data
  | some .dir => refuse .isDir

/-- Reading depends on nothing but the way and what is at its end. -/
theorem read_eq_readSpot (d : Disk) (text : String) :
    d.read text = (d.walk text).bind fun s => readSpot s (d.shapeAt s.parts) := by
  unfold Disk.read find readSpot
  cases d.walk text with
  | error e => rfl
  | ok s =>
    rw [Except.bind, shapeAt_parts]
    obtain ⟨dir, last, slash⟩ := s
    rcases hnode : d.node? ⟨dir, last, slash⟩ with - | (⟨data, mode⟩ | ⟨children, mode⟩) <;>
      cases slash <;> cases last with
      | name n =>
        cases hname : checkName n <;> simp [hname, hnode, bind, Except.bind, Tree.shape,
          Tree.isFile, Tree.isDir, refuse, pure, Except.pure]
      | _ =>
        simp [hnode, bind, Except.bind, Tree.shape, Tree.isFile, Tree.isDir, refuse, pure,
          Except.pure]

/-- The same is everywhere on two disks, but for permissions and the order of names. -/
structure Alike (d d' : Disk) : Prop where
  cwd : d'.cwd = d.cwd
  shapes : ∀ place, d'.shapeAt place = d.shapeAt place

namespace Alike

theorem refl (d : Disk) : Alike d d := ⟨rfl, fun _ => rfl⟩

theorem trans (h : Alike d d') (h' : Alike d' d'') : Alike d d'' :=
  ⟨h'.cwd.trans h.cwd, fun place => (h'.shapes place).trans (h.shapes place)⟩

theorem housed (h : Alike d d') : Housed d d' :=
  ⟨h.cwd, fun place hdir => (h.shapes place).trans hdir⟩

theorem enter (h : Alike d d') (dir : List String) (piece : String) :
    d'.enter dir piece = d.enter dir piece := by
  have hshape := h.shapes (dir ++ [piece])
  unfold shapeAt at hshape
  unfold Disk.enter
  cases hnode : d.tree.get? (dir ++ [piece]) with
  | none =>
    rw [hnode, Option.map_none, Option.map_eq_none_iff] at hshape
    rw [hshape]
  | some node =>
    rw [hnode] at hshape
    obtain ⟨node', hnode', hshape⟩ := Option.map_eq_some_iff.1 hshape
    rw [hnode']
    cases node <;> cases node' <;> first | rfl | cases hshape

theorem walk (h : Alike d d') (text : String) : d'.walk text = d.walk text := by
  have henter : d'.enter = d.enter := funext fun dir => funext (h.enter dir)
  unfold Disk.walk
  rw [henter, h.cwd]

/-- What is read there is the same, and so is why it is not. -/
theorem read (h : Alike d d') (text : String) : d'.read text = d.read text := by
  rw [read_eq_readSpot, read_eq_readSpot, h.walk]
  simp only [h.shapes]

end Alike

/-! ## One place that changes -/

/-- Nothing has changed on a disk but one place, and no directory was there. -/
structure Changed (place : List String) (shape : Option Shape) (d d' : Disk) : Prop where
  cwd : d'.cwd = d.cwd
  old : d.shapeAt place ≠ some .dir
  shapes : ∀ other, d'.shapeAt other = if other = place then shape else d.shapeAt other

namespace Changed

variable {place : List String} {shape : Option Shape}

theorem housed (h : Changed place shape d d') : Housed d d' where
  cwd := h.cwd
  dirs other hdir := by
    rw [h.shapes, if_neg, hdir]
    rintro rfl
    exact h.old hdir

/-- A file that is elsewhere is read as before. -/
theorem read (h : Changed place shape d d') {bytes : ByteArray} (hread : d.read text = .ok bytes)
    (hne : d.placeOf text ≠ place) : d'.read text = .ok bytes :=
  h.housed.read hread (by rw [h.shapes, if_neg hne, shapeAt_of_read hread])

theorem of_alike {d₀ : Disk} (h : Changed place shape d d') (halike : Alike d₀ d) :
    Changed place shape d₀ d' :=
  ⟨h.cwd.trans halike.cwd, by rw [← halike.shapes]; exact h.old,
    fun other => by rw [h.shapes, halike.shapes]⟩

end Changed

/-- A file that is removed is gone, and nothing else is. -/
theorem changed_unlink (hd : d.Grounded) (h : d.unlink text = .ok d') :
    Changed (d.placeOf text) none d d' := by
  obtain ⟨rfl, hold⟩ := unlink_eq_ok h
  refine ⟨rfl, hold, ?_⟩
  rcases List.eq_nil_or_concat (d.placeOf text) with hnil | ⟨above, name, hplace⟩
  · rw [hnil] at hold
    exact absurd hd.root hold
  · rw [List.concat_eq_append] at hplace
    rw [hplace] at hold ⊢
    exact shapeAt_erase hold

/-- What can be read can be removed. -/
theorem unlink_of_read (hd : d.Grounded) {bytes : ByteArray} (h : d.read text = .ok bytes) :
    ∃ d', d.unlink text = .ok d' := by
  obtain ⟨s, hwalk, hallowed, hslash, hfile⟩ := read_eq_ok_iff.1 h
  obtain ⟨n, hlast⟩ := last_of_file hd hwalk hfile
  rw [shapeAt_parts] at hfile
  obtain ⟨node, hnode, hshape⟩ := Option.map_eq_some_iff.1 hfile
  cases node with
  | dir children mode => cases hshape
  | file data mode =>
    have hnamed : d.named text (fun _ => .isDir) = .ok (s, n) := by
      simp only [named, hwalk, hlast, hallowed n hlast, bind, Except.bind, pure, Except.pure]
    exact ⟨d.erase s.parts, by
      simp only [unlink, hnamed, hnode, hslash, bind, Except.bind, pure, Except.pure,
        Bool.false_eq_true, if_false]⟩

theorem PavedOn.alike (h : PavedOn text d d')
    (hway : ∀ place, d.OnWay text place → d.shapeAt place = some .dir) : Alike d d' := by
  refine ⟨h.cwd, fun place => ?_⟩
  rcases h.shapes place with hsame | ⟨hplace, hnone, -⟩
  · exact hsame
  · cases hnone.symm.trans (hway place hplace)

end Disk

namespace Job

open Disk

variable {d d' : Disk} {text : String}

theorem pavedOn_makeOne {sub : String} (halong : Along sub text) {makeParent : Job Unit}
    (hparent : Leads (PavedOn text) makeParent) :
    Leads (PavedOn text) (makeOne sub makeParent) := by
  have hsettle : ∀ e : Error,
      Leads (PavedOn text) (do if (← get).isDir sub then return else throw e : Job Unit) := by
    refine fun e => .bind_get fun d => ?_
    split
    · exact leads_pure () d
    · exact leads_throw e d
  have hmake : Leads (PavedOn text) (change (·.makeDir sub)) := by
    intro d
    rcases resultOf_change (·.makeDir sub) d with ⟨d', hmade, hresult⟩ | ⟨e, -, hresult⟩ <;>
      rw [hresult]
    · exact makeDir_pavedOn halong hmade
    · exact refl_of _ d
  unfold makeOne
  refine .bind_get fun d => ?_
  split
  · next d' hmade => exact makeDir_pavedOn halong hmade
  · next e hrefused =>
    split
    · exact (hparent.bind fun _ => hmake.tryCatch hsettle) d
    · exact hsettle e d

theorem pavedOn_makeUpTo (text : String) (n : Nat) :
    Leads (PavedOn text) (makeUpTo (Location.ofText text) n) := by
  induction n with
  | zero => exact leads_pure ()
  | succ n ih => exact pavedOn_makeOne (along_take text (n + 1)) ih

/-- Making a directory makes directories on its way, whatever comes of it. -/
theorem pavedOn_makeDirs (text : String) : Leads (PavedOn text) (makeDirs text) := by
  unfold makeDirs
  dsimp only
  split_ifs
  · exact leads_pure ()
  · exact pavedOn_makeOne ⟨List.prefix_rfl, rfl⟩ (leads_throw (Error.system .noEntry))
  · exact pavedOn_makeOne ⟨List.prefix_rfl, rfl⟩ (pavedOn_makeUpTo text _)

/-! ## Replacing a file in a directory -/

/-- What becomes of a file that is replaced in a directory that is there. -/
inductive Rewritten (text : String) (data : ByteArray) (d : Disk) : Except Error Unit × Disk → Prop
    where
  | done {d' : Disk} : Changed (d.placeOf text) (some (.file data)) d d' →
      d'.read text = .ok data → Rewritten text data d (.ok (), d')
  | refused {e : Error} {d' : Disk} : Alike d d' → Rewritten text data d (.error e, d')

theorem Rewritten.after {data : ByteArray} {result : Except Error Unit × Disk} (h : Alike d d')
    (h' : Rewritten text data d' result) : Rewritten text data d result := by
  cases h' with
  | done hchanged hread =>
    rw [h.housed.placeOf] at hchanged
    exact .done (hchanged.of_alike h) hread
  | refused halike => exact .refused (h.trans halike)

/-- The directory of a file is the one that it was joined to. -/
theorem exists_replaceFile_join (root : String) {name : String}
    (hname : Path.isComponent name = true) (data : ByteArray) :
    ∃ parent, wayOf parent = wayOf root ∧ Location.isRooted parent = Location.isRooted root ∧
      replaceFile (Location.join root name) data =
        replaceIn parent (Location.join root name) data := by
  have hrooted : Location.isRooted name = false :=
    Package.isRooted_of_pieces (by rw [Package.pieces_of_isComponent hname]; simpa using hname)
  obtain ⟨l, hl⟩ : ∃ l, l = Location.ofText (Location.join root name) := ⟨_, rfl⟩
  have hparts : l.parts ≠ [] ∧ l.parts.dropLast.filter (· ≠ ".") = wayOf root := by
    have hway := wayOf_join root hname
    rcases ofText_parts (Location.join root name) with hown | hown <;> rw [hl, hown, hway]
    · rw [List.dropLast_concat]
      exact ⟨by simp, filter_wayOf root⟩
    · rw [← List.cons_append, List.dropLast_concat, List.filter_cons_of_neg (by simp)]
      exact ⟨by simp, filter_wayOf root⟩
  obtain ⟨hway, hstart⟩ := wayOf_toText (l := { l with parts := l.parts.dropLast })
    fun part hpart => proper_of_mem_ofText (hl ▸ List.mem_of_mem_dropLast hpart)
  have habsolute : l.isAbsolute = Location.isRooted root := by
    rw [hl, ← Package.isRooted_join root hrooted]
    rfl
  have hparent : Location.parentText? (Location.join root name) =
      some ({ l with parts := l.parts.dropLast } : Location).toText := by
    rw [Location.parentText?, ← hl, Location.parent?, if_neg (by simpa using hparts.1)]
    rfl
  rw [hparts.2] at hway
  replace hstart := hstart.trans habsolute
  generalize ({ l with parts := l.parts.dropLast } : Location).toText = parent
    at hway hstart hparent
  by_cases hempty : parent = ""
  · -- the file is in the working directory
    subst hempty
    refine ⟨".", hway ▸ rfl, hstart ▸ rfl, ?_⟩
    rw [replaceFile, holderOf, hparent]
    rfl
  · refine ⟨parent, hway, hstart, ?_⟩
    rw [replaceFile, holderOf, hparent]
    dsimp only
    split
    · next hnone => cases hnone
    · next hblank => exact absurd (Option.some.inj hblank) hempty
    · next hsome =>
      cases hsome
      rfl

/-- What is staged takes the place of a file, or leaves no trace. -/
theorem rewritten_move {staged : String} (hd : d.Grounded) {data : ByteArray} {d₁ : Disk}
    (hstaged : d.alter staged stagedMode (fun _ => data) = .ok d₁)
    (hfree : d.shapeAt (d.placeOf staged) = none) (hne : d.placeOf text ≠ d.placeOf staged) :
    Rewritten text data d (resultOf (tryCatch (change (·.rename staged text)) fun e => do
      change (·.unlink staged)
      throw e) d₁) := by
  obtain ⟨hgrown, hwritten⟩ := alter_eq_ok hd hstaged
  have hd₁ := hgrown.grounded hd
  have hshapes := shapeAt_alter hd hstaged
  rw [resultOf_tryCatch]
  rcases resultOf_change (·.rename staged text) d₁ with ⟨d', hrename, hresult⟩ | ⟨e, -, hresult⟩ <;>
    rw [hresult]
  · obtain ⟨hhoused, hnew, hmoved⟩ := read_of_rename hd₁ (shapeAt_of_read hwritten)
      (by rwa [hgrown.placeOf, hgrown.placeOf]) hrename
    have hshapes' : ∀ place, d'.shapeAt place =
        if place = d.placeOf text then some (.file data) else d.shapeAt place := by
      intro place
      rw [hmoved, hgrown.placeOf, hgrown.placeOf, hshapes]
      split_ifs with htext hplace
      · rfl
      · rw [hplace, hfree]
      · rfl
    refine .done ⟨hhoused.cwd.trans hgrown.cwd, ?_, hshapes'⟩ hnew
    obtain ⟨s, -, -, hwalk, -, -, -, hold, -⟩ := rename_eq_ok (shapeAt_of_read hwritten)
      (by rwa [hgrown.placeOf, hgrown.placeOf]) hrename
    rwa [walk_parts hwalk, hgrown.placeOf, hshapes, if_neg hne] at hold
  · obtain ⟨d', hunlink⟩ := unlink_of_read hd₁ hwritten
    have hremoved := changed_unlink hd₁ hunlink
    rw [recoverWith, resultOf_bind]
    rcases resultOf_change (·.unlink staged) d₁ with ⟨d'', hunlink', hresult⟩ | ⟨e', hrefused, -⟩
    · cases hunlink.symm.trans hunlink'
      rw [hresult]
      refine .refused ⟨hremoved.cwd.trans hgrown.cwd, fun place => ?_⟩
      rw [hremoved.shapes, hgrown.placeOf, hshapes]
      split_ifs with hplace
      · rw [hplace, hfree]
      · rfl
    · cases hunlink.symm.trans hrefused

/-- A file in a directory that is there is replaced without a trace. -/
theorem rewritten_replaceFile (hd : d.Grounded) {root name : String}
    (hroot : d.isDir root = true) (hname : Path.isComponent name = true)
    (hfresh : ∀ children, freshName children ≠ name) (data : ByteArray) :
    Rewritten (Location.join root name) data d
      (resultOf (replaceFile (Location.join root name) data) d) := by
  obtain ⟨parent, hway, hrooted, hreplace⟩ := exists_replaceFile_join root hname data
  have hnul : (Location.join root name).toList.contains '\x00' ≠ true := by
    obtain ⟨s, hwalk, -⟩ := isDir_eq_true_iff.1 hroot
    have hroot := (walk_eq_ok_iff.1 hwalk).1.1
    have hname := Path.nul_notMem_of_isComponent hname
    rw [List.contains_eq_mem, decide_eq_false_iff_not] at hroot
    rw [List.contains_eq_mem, ne_eq, decide_eq_true_eq]
    unfold Location.join
    split_ifs <;> simp [String.toList_append, hroot, hname]
  have hsame : ∀ d : Disk, d.placeOf parent = d.placeOf root :=
    fun d => placeOf_of_way d hway hrooted
  -- what leads to the file is there, so nothing is made for it
  have halike := (pavedOn_makeDirs parent d).alike fun place hplace =>
    shapeAt_of_onWay hd hroot (hplace.along ⟨hway ▸ List.prefix_rfl, hrooted⟩)
  rw [hreplace, replaceIn, resultOf_bind]
  rcases hmade : resultOf (makeDirs parent) d with ⟨e | ⟨⟩, d₁⟩ <;> rw [hmade] at halike
  · exact .refused halike
  refine .after halike ?_
  have hd₁ := halike.housed.grounded hd
  rw [goOnWith, resultOf_bind, resultOf_ask]
  cases hlist : d₁.list parent with
  | error e => exact .refused (.refl d₁)
  | ok children =>
  have hfree := shapeAt_staged hlist
  have hne : d₁.placeOf (Location.join root name) ≠
      d₁.placeOf (Location.join parent (freshName children)) := by
    rw [Package.placeOf_join_name _ _ hname,
      Package.placeOf_join_name _ _ (isComponent_freshName children), hsame]
    intro heq
    exact hfresh children (List.singleton_inj.1 (List.append_cancel_left heq)).symm
  rw [goOnWith]
  dsimp only
  generalize Location.join parent (freshName children) = staged at hfree hne ⊢
  rw [resultOf_bind]
  rcases resultOf_change (·.alter staged stagedMode fun _ => data) d₁ with
    ⟨d₂, halter, hresult⟩ | ⟨e, -, hresult⟩ <;> rw [hresult]
  · rw [goOnWith, Bool.eq_false_iff.2 hnul, if_neg Bool.false_ne_true]
    exact rewritten_move hd₁ halter hfree hne
  · exact .refused (.refl d₁)

/-! ## Emptying a directory -/

/-- A directory that is removed is gone with all that was in it. -/
theorem shapeAt_removeTree {u : Unit} (h : Yields (removeTree text) d u d') :
    (∃ above name, d.placeOf text = above ++ [name]) ∧ d'.cwd = d.cwd ∧
      ∀ place, d'.shapeAt place =
        if d.placeOf text <+: place then none else d.shapeAt place := by
  obtain ⟨⟨parts, node⟩, d₁, hfound, h⟩ := yields_bind_iff.1 h
  obtain ⟨hfind, rfl⟩ := yields_ask_iff.1 hfound
  obtain ⟨s, hwalk, -, rfl, -⟩ := find_eq_ok_iff.1 hfind
  rw [walk_parts hwalk] at h
  cases node with
  | file data mode => exact absurd h not_yields_throw
  | dir children mode =>
    obtain ⟨⟨⟩, d₁, hput, h⟩ := yields_bind_iff.1 h
    obtain rfl := yields_modify_iff.1 hput
    have hremoved := request_of_change h
    obtain rfl := removeDir_eq_ok hremoved
    have hplace : (d.put (d.placeOf text) (.dir [] mode)).placeOf text = d.placeOf text := rfl
    obtain ⟨⟨s', n⟩, hnamed, -⟩ := bind_eq_ok_iff.1 hremoved
    obtain ⟨hwalk', hlast, -⟩ := named_eq_ok hnamed
    have hparts := walk_parts hwalk'
    rw [hplace, Spot.parts, hlast] at hparts
    dsimp only at hparts
    refine ⟨⟨s'.dir, n, hparts.symm⟩, rfl, fun place => ?_⟩
    rw [hplace]
    split_ifs with hpre
    · obtain ⟨rest, rfl⟩ := hpre
      rw [← hparts]
      exact erase_below _ _ _ _
    · exact (Tree.shape_get?_erase_beside _ hpre).trans (Tree.shape_get?_put_beside _ _ hpre)

/-- Making a directory ends with finding it or with making it. -/
theorem makeDirs_ends {u : Unit} (hne : text ≠ "") (h : Yields (makeDirs text) d u d') :
    d'.isDir text = true ∨ ∃ d₁, PavedOn text d d₁ ∧ d₁.makeDir text = .ok d' := by
  have hsettled : ∀ {e : Error} {d : Disk} {u : Unit},
      Yields (do if (← get).isDir text then return else throw e : Job Unit) d u d' →
      d'.isDir text = true := by
    intro e d u h
    obtain ⟨d₁, d₂, hget, h⟩ := yields_bind_iff.1 h
    obtain ⟨rfl, rfl⟩ := yields_get_iff.1 hget
    split at h
    · next hdir =>
      obtain ⟨-, rfl⟩ := yields_pure_iff.1 h
      exact hdir
    · exact absurd h not_yields_throw
  have hone : ∀ {makeParent : Job Unit}, Leads (PavedOn text) makeParent → ∀ {u : Unit},
      Yields (makeOne text makeParent) d u d' →
      d'.isDir text = true ∨ ∃ d₁, PavedOn text d d₁ ∧ d₁.makeDir text = .ok d' := by
    intro makeParent hparent u h
    obtain ⟨d₁, d₂, hget, h⟩ := yields_bind_iff.1 h
    obtain ⟨rfl, rfl⟩ := yields_get_iff.1 hget
    split at h
    · next d₁ hmade =>
      obtain rfl := yields_set_iff.1 h
      exact Or.inr ⟨d, refl_of _ d, hmade⟩
    · split at h
      · obtain ⟨u', d₁, hfirst, h⟩ := yields_bind_iff.1 h
        have hpaved := hparent d
        rw [show resultOf makeParent d = (.ok u', d₁) from hfirst] at hpaved
        rcases yields_tryCatch_iff.1 h with hmade | ⟨e, d₂, -, hsettle⟩
        · exact Or.inr ⟨d₁, hpaved, request_of_change hmade⟩
        · exact Or.inl (hsettled hsettle)
      · exact Or.inl (hsettled h)
  unfold makeDirs at h
  dsimp only at h
  split_ifs at h with hparts hempty
  · exact absurd (String.isEmpty_iff.1 hempty) hne
  · exact hone (leads_throw (Error.system .noEntry)) h
  · exact hone (pavedOn_makeUpTo text _) h

/-- Where a directory was made there is one. -/
theorem isDir_of_makeDir {above : List String} {last : String} (hplace : d.placeOf text = above ++ [last])
    (habove : d.shapeAt above = some .dir) (h : d.makeDir text = .ok d') : d'.isDir text = true := by
  obtain ⟨s, n, hwalk, hlast, hname, hnone, rfl⟩ := makeDir_cases h
  have hparts : s.parts = s.dir ++ [n] := by rw [Spot.parts, hlast]
  have hspot : s.dir ++ [n] = above ++ [last] := by rw [← hparts, walk_parts hwalk, hplace]
  have hput := shapeAt_makeDir ((List.append_inj' hspot rfl).1 ▸ habove) hnone
  have hhoused : Housed d (d.put (s.dir ++ [n]) (.dir [] dirMode)) := by
    refine ⟨rfl, fun place hshape => ?_⟩
    rw [hput]
    split_ifs
    · rfl
    · exact hshape
  refine isDir_eq_true_iff.2 ⟨s, walk_of_dirs hhoused.cwd hhoused.dirs hwalk, ?_, ?_⟩
  · intro n' hn
    rw [hlast] at hn
    cases hn
    exact hname
  · rw [hparts, hput, if_pos rfl]

/-- Making directories below one that is there ends with all of them there. -/
theorem isDir_of_makeDirs {u : Unit} (hne : text ≠ "") {above : List String} {last : String}
    (hplace : d.placeOf text = above ++ [last]) (habove : d.shapeAt above = some .dir)
    (h : Yields (makeDirs text) d u d') : d'.isDir text = true := by
  rcases makeDirs_ends hne h with hdir | ⟨d₁, hpaved, hmake⟩
  · exact hdir
  · have hsame : d₁.placeOf text = above ++ [last] := by
      rw [placeOf, hpaved.cwd]
      exact hplace
    exact isDir_of_makeDir hsame (hpaved.kept habove) hmake

/-- A directory that holds no directory is empty once it has been removed and made again. -/
theorem emptied (hd : d.Grounded) (hroot : d.isDir text = true)
    (hflat : ∀ name, d.shapeAt (d.placeOf text ++ [name]) ≠ some .dir) {d₁ : Disk} {u v : Unit}
    (hremoved : Yields (removeTree text) d u d₁) (hmade : Yields (makeDirs text) d₁ v d') :
    d'.Grounded ∧ d'.isDir text = true ∧ d'.cwd = d.cwd ∧
      ∀ name, d'.shapeAt (d.placeOf text ++ [name]) = none := by
  obtain ⟨⟨above, last, hplace⟩, hcwd, hgone⟩ := shapeAt_removeTree hremoved
  have hthere := shapeAt_of_isDir hroot
  have hne : text ≠ "" := by
    rintro rfl
    obtain ⟨s, hwalk, -⟩ := isDir_eq_true_iff.1 hroot
    exact absurd (walk_eq_ok_iff.1 hwalk).1.2.1 (by decide)
  have hsame : d₁.placeOf text = d.placeOf text := by rw [placeOf, placeOf, hcwd]
  have hpaved := pavedOn_makeDirs text d₁
  rw [show resultOf (makeDirs text) d₁ = (.ok v, d') from hmade] at hpaved
  have hsame' : d'.placeOf text = d.placeOf text := by rw [placeOf, placeOf, hpaved.cwd, hcwd]
  -- nothing below a directory without directories is left
  have hbelow : ∀ name rest, d.shapeAt (d.placeOf text ++ name :: rest) ≠ some .dir := by
    intro name rest hdir
    cases rest with
    | nil => exact hflat name hdir
    | cons other rest =>
      refine hflat name (shapeAt_above other rest ?_)
      rw [List.append_assoc, List.singleton_append, hdir]
      rfl
  have hdir : d'.isDir text = true := by
    refine isDir_of_makeDirs hne (hsame.trans hplace) ((hgone above).trans ?_) hmade
    rw [if_neg, shapeAt_above last [] (by rw [← hplace, hthere]; rfl)]
    rw [hplace]
    exact fun hpre => absurd hpre.length_le (by simp)
  refine ⟨?_, hdir, hpaved.cwd.trans hcwd, fun name => ?_⟩
  · unfold Grounded
    rw [hpaved.cwd, hcwd]
    by_cases hpre : d.placeOf text <+: d.cwd
    · obtain ⟨rest, hrest⟩ := hpre
      cases rest with
      | nil =>
        rw [← hrest, List.append_nil, ← hsame']
        exact shapeAt_of_isDir hdir
      | cons name rest => exact absurd (hrest ▸ hd) (hbelow name rest)
    · exact hpaved.kept ((hgone d.cwd).trans (by rw [if_neg hpre]; exact hd))
  · have hnone : d₁.shapeAt (d.placeOf text ++ [name]) = none :=
      (hgone _).trans (if_pos (List.prefix_append _ _))
    rcases hpaved.shapes (d.placeOf text ++ [name]) with hshape | ⟨hway, -, -⟩
    · rw [hshape, hnone]
    · rw [OnWay, startOf, hcwd] at hway
      exact absurd (shapeAt_of_onWay hd hroot hway) (hflat name)

end Job

end Workbench.Host
