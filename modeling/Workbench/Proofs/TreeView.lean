import Mathlib.Data.List.Infix
import Mathlib.Data.List.Nodup
import Workbench.FileSystem.Node

set_option autoImplicit false

/-! # Trees seen from above

A tree of files and directories seen as what is at each list of components. Such a view is a tree if
a name leads from a node to another exactly where the first lists it, and no name is listed twice.
Files list nothing. Two changes keep that: cutting off what is at a place and below it while its
name is struck, and setting another tree there while its name is added. Every operation that changes
names is a case of these two. -/

namespace Workbench

/-! ## Names in a node -/

namespace Node

@[simp] theorem isDir_addName (now : Time) (name : String) (node : Node) :
    (node.addName now name).isDir = node.isDir := by
  cases node with
  | file data times => rfl
  | dir names times =>
    rw [addName]
    split <;> rfl

@[simp] theorem isDir_dropName (now : Time) (name : String) (node : Node) :
    (node.dropName now name).isDir = node.isDir := by
  cases node with
  | file data times => rfl
  | dir names times =>
    rw [dropName]
    split <;> rfl

@[simp] theorem isDir_withTimes (times : Times) (node : Node) :
    (node.withTimes times).isDir = node.isDir := by
  cases node <;> rfl

@[simp] theorem names_withTimes (times : Times) (node : Node) :
    (node.withTimes times).names = node.names := by
  cases node <;> rfl

theorem names_eq_nil_of_isDir_eq_false {node : Node} (h : node.isDir = false) :
    node.names = [] := by
  cases node with
  | file data times => rfl
  | dir names times => cases h

/-- A name that is there is not added again. -/
theorem addName_of_mem (now : Time) {name : String} {node : Node} (h : name ∈ node.names) :
    node.addName now name = node := by
  cases node with
  | file data times => rfl
  | dir names times => exact if_pos h

theorem names_addName (now : Time) (name : String) {node : Node} (h : node.isDir = true) :
    (node.addName now name).names =
      if name ∈ node.names then node.names else node.names ++ [name] := by
  cases node with
  | file data times => cases h
  | dir names times =>
    rw [addName]
    split
    · next hmem => exact (if_pos hmem).symm
    · next hmem => exact (if_neg hmem).symm

theorem names_dropName (now : Time) (name : String) (node : Node) :
    (node.dropName now name).names = node.names.filter (· ≠ name) := by
  cases node with
  | file data times => rfl
  | dir names times =>
    rw [dropName]
    split
    · rfl
    · next h =>
      refine (List.filter_eq_self.2 fun other hother => ?_).symm
      exact decide_eq_true fun heq => h (heq ▸ hother)

theorem mem_names_addName (now : Time) (name other : String) {node : Node}
    (h : node.isDir = true) :
    other ∈ (node.addName now name).names ↔ other ∈ node.names ∨ other = name := by
  rw [names_addName now name h]
  split
  · next hmem =>
    refine (or_iff_left_of_imp ?_).symm
    rintro rfl
    exact hmem
  · rw [List.mem_append, List.mem_singleton]

theorem nodup_names_addName (now : Time) (name : String) {node : Node}
    (h : node.names.Nodup) : (node.addName now name).names.Nodup := by
  cases node with
  | file data times => exact h
  | dir names times =>
    rw [names_addName now name rfl]
    split
    · exact h
    · next hmem => exact h.append (List.nodup_singleton name) (List.disjoint_singleton.2 hmem)

end Node

namespace FileSystem

/-! ## Views -/

/-- What is at each list of components. -/
abbrev View := List String → Option Node

namespace View

/-- The names listed at a place. -/
def names (v : View) (place : List String) : List String := ((v place).map Node.names).getD []

/-- Put a node, or nothing, at a place. -/
def set (v : View) (place : List String) (node : Option Node) : View :=
  fun parts => if parts = place then node else v parts

/-- Change the node at a place, if there is one. -/
def modify (v : View) (place : List String) (f : Node → Node) : View :=
  fun parts => if parts = place then (v parts).map f else v parts

/-- Cut off what is at a place and below it. -/
def prune (v : View) (place : List String) : View :=
  fun parts => if place <+: parts then none else v parts

/-- Set a tree at a place, instead of what is there and below it. -/
def graft (v : View) (place : List String) (sub : View) : View :=
  fun parts => if place <+: parts then sub (parts.drop place.length) else v parts

/-- What is at a place and below it, seen from there. -/
def below (v : View) (place : List String) : View := fun parts => v (place ++ parts)

/-- A node by itself. -/
def single (node : Node) : View := fun parts => if parts = [] then some node else none

/-- What every view of a tree obeys. -/
structure IsTree (v : View) : Prop where
  /-- There is a node under a name exactly if the name is listed. -/
  listed : ∀ place name, (v (place ++ [name])).isSome ↔ name ∈ v.names place
  /-- No name is listed twice. -/
  unrepeated : ∀ place, (v.names place).Nodup

variable {v sub : View}

theorem names_of_eq_some {place : List String} {node : Node} (h : v place = some node) :
    v.names place = node.names := by
  rw [names, h]
  rfl

theorem names_of_eq_none {place : List String} (h : v place = none) : v.names place = [] := by
  rw [names, h]
  rfl

/-- What lists a name is a directory. -/
theorem isDir_of_mem_names {place : List String} {name : String} (h : name ∈ v.names place) :
    ∃ node, v place = some node ∧ node.isDir = true := by
  cases hv : v place with
  | none =>
    rw [names_of_eq_none hv] at h
    exact absurd h List.not_mem_nil
  | some node =>
    refine ⟨node, rfl, ?_⟩
    by_contra hdir
    rw [names_of_eq_some hv,
      Node.names_eq_nil_of_isDir_eq_false (Bool.not_eq_true _ ▸ hdir)] at h
    exact absurd h List.not_mem_nil

theorem not_prefix_self_append_singleton (place : List String) (name : String) :
    ¬ place ++ [name] <+: place := by
  intro h
  have := h.length_le
  rw [List.length_append, List.length_singleton] at this
  omega

/-! ## What a tree implies -/

/-- A directory of a tree lists the names under which something is. -/
theorem IsTree.mem_names_iff (h : IsTree v) {place : List String} {names : List String}
    {times : Times} (hdir : v place = some (.dir names times)) (name : String) :
    name ∈ names ↔ (v (place ++ [name])).isSome := by
  rw [h.listed, names_of_eq_some hdir]
  rfl

/-- Under a place that lists nothing there is nothing. -/
theorem IsTree.none_below (h : IsTree v) {place : List String} (hplace : v.names place = [])
    {parts : List String} (hparts : parts ≠ []) : v (place ++ parts) = none := by
  -- a node stands only where the one above lists it, so the last name is taken off first
  induction parts using List.reverseRecOn with
  | nil => exact absurd rfl hparts
  | append_singleton parts name ih =>
    rw [← List.append_assoc, ← Option.not_isSome_iff_eq_none, h.listed]
    by_cases hnil : parts = []
    · rw [hnil, List.append_nil, hplace]
      exact List.not_mem_nil
    · rw [names_of_eq_none (ih hnil)]
      exact List.not_mem_nil

/-- Above a node there are directories only. -/
theorem IsTree.dir_above (h : IsTree v) (place : List String) {more : List String}
    (hmore : more ≠ []) (hsome : (v (place ++ more)).isSome) :
    ∃ node, v place = some node ∧ node.isDir = true := by
  have hnames : v.names place ≠ [] := by
    intro hnil
    rw [h.none_below hnil hmore] at hsome
    cases hsome
  obtain ⟨name, rest, hcons⟩ := List.exists_cons_of_ne_nil hnames
  exact isDir_of_mem_names (hcons ▸ List.mem_cons_self : name ∈ v.names place)

/-- What is below a place of a tree is a tree. -/
theorem IsTree.below (h : IsTree v) (place : List String) : IsTree (v.below place) where
  listed parts name := by
    have := h.listed (place ++ parts) name
    rwa [List.append_assoc] at this
  unrepeated parts := h.unrepeated (place ++ parts)

/-- A node without names is a tree. -/
theorem isTree_single {node : Node} (hnames : node.names = []) : IsTree (single node) where
  listed place name := by
    have hnone : single node (place ++ [name]) = none := if_neg (by simp)
    have hnil : (single node).names place = [] := by
      unfold names single
      split
      · exact hnames
      · rfl
    rw [hnone, hnil]
    simp
  unrepeated place := by
    unfold names single
    split
    · rw [Option.map_some, Option.getD_some, hnames]
      exact List.nodup_nil
    · exact List.nodup_nil

/-! ## Changes that keep a tree -/

/-- A node may be exchanged for one with the same names. -/
theorem IsTree.set_of_names_eq (h : IsTree v) {place : List String} {old new : Node}
    (hold : v place = some old) (hnames : new.names = old.names) :
    IsTree (v.set place (some new)) := by
  have hsame : (v.set place (some new)).names = v.names := by
    funext parts
    by_cases hp : parts = place
    · subst hp
      rw [names_of_eq_some hold, ← hnames]
      exact names_of_eq_some (if_pos rfl)
    · unfold names set
      rw [if_neg hp]
  constructor
  · intro parts name
    rw [hsame, ← h.listed]
    by_cases hp : parts ++ [name] = place
    · rw [hp, hold, set, if_pos rfl]
      rfl
    · rw [set, if_neg hp]
  · intro parts
    rw [hsame]
    exact h.unrepeated parts

theorem names_prune (v : View) (now : Time) (d : List String) (name : String)
    (parts : List String) :
    ((v.prune (d ++ [name])).modify d (·.dropName now name)).names parts =
      if d ++ [name] <+: parts then []
      else if parts = d then (v.names d).filter (· ≠ name) else v.names parts := by
  unfold names modify prune
  by_cases hd : parts = d
  · subst hd
    rw [if_pos rfl, if_neg (not_prefix_self_append_singleton parts name), if_pos rfl,
      if_neg (not_prefix_self_append_singleton parts name)]
    cases v parts with
    | none => rfl
    | some node => exact Node.names_dropName now name node
  · rw [if_neg hd, if_neg hd]
    split <;> rfl

theorem isSome_prune (v : View) (now : Time) (d : List String) (name : String)
    (parts : List String) :
    (((v.prune (d ++ [name])).modify d (·.dropName now name)) parts).isSome ↔
      ¬ d ++ [name] <+: parts ∧ (v parts).isSome := by
  unfold modify prune
  by_cases hd : parts = d
  · subst hd
    have hnot := not_prefix_self_append_singleton parts name
    rw [if_pos rfl, if_neg hnot, Option.isSome_map]
    exact (and_iff_right hnot).symm
  · rw [if_neg hd]
    by_cases hp : d ++ [name] <+: parts <;> simp [hp]

/-- Cutting off a place and striking its name keeps a tree. -/
theorem IsTree.prune (h : IsTree v) (now : Time) (d : List String) (name : String) :
    IsTree ((v.prune (d ++ [name])).modify d (·.dropName now name)) where
  listed parts other := by
    rw [isSome_prune, h.listed, names_prune]
    by_cases hp : d ++ [name] <+: parts
    · rw [if_pos hp]
      refine iff_of_false (fun hand => ?_) List.not_mem_nil
      exact hand.1 (hp.trans (List.prefix_append parts [other]))
    · rw [if_neg hp, List.prefix_concat_iff, or_iff_left hp]
      by_cases hd : parts = d
      · subst hd
        rw [if_pos rfl, List.mem_filter, decide_eq_true_eq, List.append_cancel_left_eq,
          List.singleton_inj]
        exact ⟨fun hand => ⟨hand.2, fun heq => hand.1 heq.symm⟩,
          fun hand => ⟨fun heq => hand.2 heq.symm, hand.1⟩⟩
      · rw [if_neg hd]
        refine and_iff_right fun heq => hd ?_
        exact (List.append_inj_left' heq rfl).symm
  unrepeated parts := by
    rw [names_prune]
    split
    · exact List.nodup_nil
    · split
      · exact (h.unrepeated d).filter _
      · exact h.unrepeated parts

theorem names_graft (v sub : View) (now : Time) (d : List String) (name : String)
    (parts : List String) :
    ((v.graft (d ++ [name]) sub).modify d (·.addName now name)).names parts =
      if d ++ [name] <+: parts then sub.names (parts.drop (d ++ [name]).length)
      else if parts = d then ((v d).map (·.addName now name)).elim [] Node.names
      else v.names parts := by
  unfold names modify graft
  by_cases hd : parts = d
  · subst hd
    have hnot := not_prefix_self_append_singleton parts name
    rw [if_pos rfl, if_neg hnot, if_neg hnot, if_pos rfl]
    cases v parts <;> rfl
  · rw [if_neg hd, if_neg hd]
    split <;> rfl

theorem isSome_graft (v sub : View) (now : Time) (d : List String) (name : String)
    (parts : List String) :
    (((v.graft (d ++ [name]) sub).modify d (·.addName now name)) parts).isSome ↔
      (d ++ [name] <+: parts ∧ (sub (parts.drop (d ++ [name]).length)).isSome) ∨
        (¬ d ++ [name] <+: parts ∧ (v parts).isSome) := by
  unfold modify graft
  by_cases hd : parts = d
  · subst hd
    have hnot := not_prefix_self_append_singleton parts name
    rw [if_pos rfl, if_neg hnot, Option.isSome_map]
    simp [hnot]
  · rw [if_neg hd]
    by_cases hp : d ++ [name] <+: parts <;> simp [hp]

/-- Setting a tree at a place in a directory and adding its name keeps a tree. -/
theorem IsTree.graft (h : IsTree v) (hsub : IsTree sub) (hsome : (sub []).isSome)
    (now : Time) {d : List String} (name : String) {dir : Node} (hv : v d = some dir)
    (hdir : dir.isDir = true) :
    IsTree ((v.graft (d ++ [name]) sub).modify d (·.addName now name)) where
  listed parts other := by
    rw [isSome_graft, names_graft]
    by_cases hp : d ++ [name] <+: parts
    · have hp' : d ++ [name] <+: parts ++ [other] := hp.trans (List.prefix_append parts [other])
      rw [if_pos hp, List.drop_append_of_le_length hp.length_le, hsub.listed]
      simp [hp']
    · rw [if_neg hp]
      by_cases hd : parts = d
      · subst hd
        rw [if_pos rfl, hv, Option.map_some, Option.elim_some,
          Node.mem_names_addName now name other hdir, ← names_of_eq_some hv, ← h.listed]
        by_cases hname : other = name
        · subst hname
          rw [List.drop_length]
          exact iff_of_true (Or.inl ⟨List.prefix_rfl, hsome⟩) (Or.inr rfl)
        · have hp' : ¬ parts ++ [name] <+: parts ++ [other] := by
            rw [List.prefix_concat_iff, or_iff_left hp, List.append_cancel_left_eq,
              List.singleton_inj]
            exact fun heq => hname heq.symm
          simp [hp', hname]
      · -- outside of the directory the graft is not seen
        have hp' : ¬ d ++ [name] <+: parts ++ [other] := by
          rw [List.prefix_concat_iff, or_iff_left hp]
          exact fun heq => hd (List.append_inj_left' heq rfl).symm
        rw [if_neg hd, ← h.listed]
        simp [hp']
  unrepeated parts := by
    rw [names_graft]
    split
    · exact hsub.unrepeated _
    · split
      · rw [hv]
        refine Node.nodup_names_addName now name ?_
        exact names_of_eq_some hv ▸ h.unrepeated d
      · exact h.unrepeated parts

/-- Where nothing is below a place, putting a node there is setting it there by itself. -/
theorem set_eq_graft_single {place : List String}
    (hbelow : ∀ parts, parts ≠ [] → v (place ++ parts) = none) (node : Node) :
    v.set place (some node) = v.graft place (single node) := by
  funext parts
  unfold set graft single
  by_cases hp : place <+: parts
  · obtain ⟨more, rfl⟩ := hp
    simp only [List.prefix_append, List.drop_left, List.append_right_eq_self, if_true]
    by_cases hmore : more = []
    · rw [if_pos hmore, if_pos hmore]
    · rw [if_neg hmore, if_neg hmore, hbelow more hmore]
  · rw [if_neg hp, if_neg]
    rintro rfl
    exact hp List.prefix_rfl

/-- Where nothing is below a place, emptying the place is cutting it off. -/
theorem set_none_eq_prune {place : List String}
    (hbelow : ∀ parts, parts ≠ [] → v (place ++ parts) = none) :
    v.set place none = v.prune place := by
  funext parts
  unfold set prune
  by_cases hp : place <+: parts
  · obtain ⟨more, rfl⟩ := hp
    simp only [List.prefix_append, List.append_right_eq_self, if_true]
    by_cases hmore : more = []
    · rw [if_pos hmore]
    · rw [if_neg hmore, hbelow more hmore]
  · rw [if_neg hp, if_neg]
    rintro rfl
    exact hp List.prefix_rfl

/-- A node without names may be put where nothing is listed, if its name is added. -/
theorem IsTree.set_addName (h : IsTree v) (now : Time) {d : List String} (name : String)
    {dir node : Node} (hv : v d = some dir) (hdir : dir.isDir = true)
    (hplace : v.names (d ++ [name]) = []) (hnode : node.names = []) :
    IsTree ((v.set (d ++ [name]) (some node)).modify d (·.addName now name)) := by
  rw [set_eq_graft_single fun _ => h.none_below hplace]
  exact h.graft (isTree_single hnode) rfl now name hv hdir

/-- What lists nothing may be taken away, if its name is struck. -/
theorem IsTree.set_dropName (h : IsTree v) (now : Time) {d : List String} {name : String}
    (hplace : v.names (d ++ [name]) = []) :
    IsTree ((v.set (d ++ [name]) none).modify d (·.dropName now name)) := by
  rw [set_none_eq_prune fun _ => h.none_below hplace]
  exact h.prune now d name

/-! ## Moving -/

/-- Cut a tree off at a place and set it at another. -/
def move (v : View) (source target : List String) : View :=
  (v.prune source).graft target (v.below source)

theorem move_of_target (v : View) (source target parts : List String) :
    v.move source target (target ++ parts) = v (source ++ parts) := by
  rw [move, View.graft, if_pos (List.prefix_append target parts), List.drop_left, View.below]

theorem move_of_source (v : View) {source target parts : List String} (hs : source <+: parts)
    (ht : ¬ target <+: parts) : v.move source target parts = none := by
  rw [move, View.graft, if_neg ht, View.prune, if_pos hs]

theorem move_of_other (v : View) {source target parts : List String} (hs : ¬ source <+: parts)
    (ht : ¬ target <+: parts) : v.move source target parts = v parts := by
  rw [move, View.graft, if_neg ht, View.prune, if_neg hs]

/-- Nothing is at or below a place where there is nothing. -/
theorem IsTree.none_under (h : IsTree v) {place parts : List String} (hv : v place = none)
    (hp : place <+: parts) : v parts = none := by
  obtain ⟨more, rfl⟩ := hp
  by_cases hmore : more = []
  · rw [hmore, List.append_nil, hv]
  · exact h.none_below (names_of_eq_none hv) hmore

/-- A directory is not at or below a file. -/
theorem IsTree.not_prefix_of_file (h : IsTree v) {file dir : List String} {node other : Node}
    (hfile : v file = some node) (hnode : node.isDir = false) (hdir : v dir = some other)
    (hother : other.isDir = true) : ¬ file <+: dir := by
  rintro ⟨more, rfl⟩
  have habove : ∃ node, v file = some node ∧ node.isDir = true := by
    by_cases hmore : more = []
    · rw [hmore, List.append_nil] at hdir
      exact ⟨other, hdir, hother⟩
    · exact h.dir_above _ hmore (hdir ▸ Option.isSome_some)
  obtain ⟨node', hv, hisDir⟩ := habove
  rw [hfile, Option.some.injEq] at hv
  rw [← hv, hnode] at hisDir
  cases hisDir

/-- A node elsewhere may be changed before a tree is set or after it. -/
theorem modify_graft (v sub : View) {d place : List String} (f : Node → Node)
    (h : ¬ place <+: d) : (v.graft place sub).modify d f = (v.modify d f).graft place sub := by
  funext parts
  simp only [modify, View.graft]
  by_cases hparts : parts = d
  · subst hparts
    rw [if_pos rfl, if_neg h, if_neg h, if_pos rfl]
  · rw [if_neg hparts, if_neg hparts]

/-- Moving a tree into a directory outside of it, where nothing is, keeps a tree once the names are
    changed. -/
theorem IsTree.move (h : IsTree v) (now : Time) {d e : List String} {name other : String}
    (hsource : (v (d ++ [name])).isSome) (htarget : v (e ++ [other]) = none) {dir : Node}
    (he : v e = some dir) (hdir : dir.isDir = true) (hout : ¬ d ++ [name] <+: e) :
    IsTree (((v.move (d ++ [name]) (e ++ [other])).modify d (·.dropName now name)).modify e
      (·.addName now other)) := by
  -- the directory that gives the name away is not below the target
  have hd : ¬ e ++ [other] <+: d := by
    intro hp
    have hnone := h.none_under htarget (hp.trans (List.prefix_append d [name]))
    rw [hnone] at hsource
    cases hsource
  obtain ⟨dir', he', hdir'⟩ : ∃ dir',
      (v.prune (d ++ [name])).modify d (·.dropName now name) e = some dir' ∧
        dir'.isDir = true := by
    unfold View.modify View.prune
    rw [if_neg hout, he]
    split
    · exact ⟨_, rfl, by rw [Node.isDir_dropName, hdir]⟩
    · exact ⟨dir, rfl, hdir⟩
  have hsome : (v.below (d ++ [name]) []).isSome := by rwa [View.below, List.append_nil]
  rw [View.move, modify_graft _ _ _ hd]
  exact (h.prune now d name).graft (h.below _) hsome now other he' hdir'

/-- Moving what has nothing below it is taking one node away and putting it elsewhere. -/
theorem IsTree.set_set_eq_move (h : IsTree v) {source target : List String} {node : Node}
    (hsource : v source = some node) (hnode : node.names = []) (htarget : v target = none) :
    (v.set source none).set target (some node) = v.move source target := by
  have hbelow : ∀ parts, parts ≠ [] → v (source ++ parts) = none := fun _ =>
    h.none_below (by rw [names_of_eq_some hsource, hnode])
  have hsingle : v.below source = single node := by
    funext parts
    unfold View.below single
    by_cases hparts : parts = []
    · rw [if_pos hparts, hparts, List.append_nil, hsource]
    · rw [if_neg hparts, hbelow parts hparts]
  rw [View.move, hsingle, ← set_none_eq_prune hbelow]
  -- taking the node away has put nothing below the target
  refine set_eq_graft_single (fun parts hparts => ?_) node
  unfold View.set
  split
  · rfl
  · exact h.none_below (names_of_eq_none htarget) hparts

/-! ## The way down -/

/-- Make every missing directory on the way down to a place, and the place itself, and add the names
    on the way. -/
def trail (v : View) (now : Time) (parts : List String) : View := fun place =>
  if place <+: parts then
    let node := (v place).getD (.emptyDir now)
    some ((parts.drop place.length).head?.elim node (node.addName now))
  else v place

/-- There is no file on the way down to a place, nor at the place itself. -/
def Passable (v : View) (parts : List String) : Prop :=
  ∀ place, place <+: parts → ∀ node, v place = some node → node.isDir = true

theorem head?_drop_concat {place d : List String} (h : place <+: d) (name : String) :
    ((d ++ [name]).drop place.length).head? = some ((d.drop place.length).head?.getD name) := by
  obtain ⟨more, rfl⟩ := h
  rw [List.append_assoc, List.drop_left, List.drop_left]
  cases more <;> rfl

theorem trail_self (v : View) (now : Time) (parts : List String) :
    v.trail now parts parts = some ((v parts).getD (.emptyDir now)) := by
  rw [trail, if_pos List.prefix_rfl, List.drop_length]
  rfl

theorem trail_aside (v : View) (now : Time) {parts place : List String}
    (h : ¬ place <+: parts) : v.trail now parts place = v place := if_neg h

/-- Nothing has to be done on the way to the root. -/
theorem trail_nil (now : Time) {node : Node} (h : v [] = some node) : v.trail now [] = v := by
  funext place
  cases place with
  | nil => rw [trail_self, h, Option.getD_some]
  | cons name place => exact trail_aside v now (by simp)

theorem isDir_getD_emptyDir (now : Time) {place : List String}
    (h : ∀ node, v place = some node → node.isDir = true) :
    ((v place).getD (.emptyDir now)).isDir = true := by
  cases hv : v place with
  | none => rfl
  | some node => exact h node hv

/-- On the trail there are directories, where there was no file before. -/
theorem isDir_of_trail (now : Time) {parts place : List String} (hp : place <+: parts)
    (h : ∀ node, v place = some node → node.isDir = true) {node : Node}
    (hnode : v.trail now parts place = some node) : node.isDir = true := by
  rw [trail, if_pos hp, Option.some.injEq] at hnode
  rw [← hnode]
  cases (parts.drop place.length).head? with
  | none => exact isDir_getD_emptyDir now h
  | some name => exact (Node.isDir_addName now name _).trans (isDir_getD_emptyDir now h)

/-- Strictly above the end of the way it does not matter that a name is still to come. -/
theorem trail_concat_of_ne (v : View) (now : Time) {d place : List String} (name : String)
    (hd : place ≠ d) (hplace : place ≠ d ++ [name]) :
    v.trail now (d ++ [name]) place = v.trail now d place := by
  unfold trail
  by_cases hp : place <+: d
  · obtain ⟨more, rfl⟩ := hp
    cases more with
    | nil => exact absurd (List.append_nil place).symm hd
    | cons next more =>
      rw [if_pos (List.prefix_append place _), List.append_assoc,
        if_pos (List.prefix_append place _), List.drop_left, List.drop_left]
      rfl
  · rw [if_neg hp, if_neg]
    rw [List.prefix_concat_iff, not_or]
    exact ⟨hplace, hp⟩

/-- One step further down, whatever is put there. -/
theorem trail_concat (v : View) (now : Time) (d : List String) (name : String)
    (node : Option Node) :
    ((v.trail now d).set (d ++ [name]) node).modify d (·.addName now name) =
      (v.trail now (d ++ [name])).set (d ++ [name]) node := by
  funext place
  unfold modify set
  by_cases hd : place = d
  · subst hd
    have hne : ¬ place = place ++ [name] := fun h => by simp at h
    rw [if_pos rfl, if_neg hne, if_neg hne, trail_self, trail,
      if_pos (List.prefix_append place [name]), head?_drop_concat List.prefix_rfl, List.drop_length]
    rfl
  · rw [if_neg hd]
    by_cases hplace : place = d ++ [name]
    · rw [if_pos hplace, if_pos hplace]
    · rw [if_neg hplace, if_neg hplace, trail_concat_of_ne v now name hd hplace]

/-- Where nothing is at the end of the way, an empty directory is made. -/
theorem trail_set_of_none {parts : List String} (now : Time) (h : v parts = none) :
    (v.trail now parts).set parts (some (.emptyDir now)) = v.trail now parts := by
  funext place
  unfold set
  split
  · next hplace => rw [hplace, trail_self, h, Option.getD_none]
  · rfl

/-- In a tree nothing has to be done on the way to a node. -/
theorem IsTree.trail_concat_of_isSome (h : IsTree v) (now : Time) {d : List String}
    {name : String} (hsome : (v (d ++ [name])).isSome) :
    v.trail now (d ++ [name]) = v.trail now d := by
  funext place
  obtain ⟨dir, hv, hdir⟩ := h.dir_above _ (List.cons_ne_nil name []) hsome
  by_cases hd : place = d
  · -- the directory lists the name already, so adding it does nothing
    subst hd
    have hname : name ∈ dir.names := names_of_eq_some hv ▸ (h.listed place name).1 hsome
    rw [trail_self, trail, if_pos (List.prefix_append place [name]),
      head?_drop_concat List.prefix_rfl, List.drop_length, hv]
    simp [Node.addName_of_mem now hname]
  · by_cases hplace : place = d ++ [name]
    · subst hplace
      obtain ⟨node, hnode⟩ := Option.isSome_iff_exists.1 hsome
      rw [trail_self, trail_aside v now (not_prefix_self_append_singleton d name), hnode]
      rfl
    · exact trail_concat_of_ne v now name hd hplace

/-- On the way to a node there is nothing to make. -/
theorem IsTree.trail_of_isSome (h : IsTree v) (now : Time) {parts : List String}
    (hsome : (v parts).isSome) : v.trail now parts = v := by
  induction parts using List.reverseRecOn with
  | nil =>
    obtain ⟨node, hnode⟩ := Option.isSome_iff_exists.1 hsome
    exact trail_nil now hnode
  | append_singleton d name ih =>
    obtain ⟨dir, hdir, -⟩ := h.dir_above d (List.cons_ne_nil name []) hsome
    rw [h.trail_concat_of_isSome now hsome]
    exact ih (hdir ▸ Option.isSome_some)

/-- In a tree the trail goes on by making the next directory if it is missing. -/
theorem IsTree.trail_concat_eq (h : IsTree v) (now : Time) (d : List String) (name : String) :
    (if (v.trail now d (d ++ [name])).isSome then v.trail now d
      else ((v.trail now d).set (d ++ [name]) (some (.emptyDir now))).modify d
        (·.addName now name)) = v.trail now (d ++ [name]) := by
  have hbelow : v.trail now d (d ++ [name]) = v (d ++ [name]) :=
    trail_aside v now (not_prefix_self_append_singleton d name)
  rw [hbelow]
  cases hv : v (d ++ [name]) with
  | some node =>
    rw [if_pos Option.isSome_some, h.trail_concat_of_isSome now (hv ▸ Option.isSome_some)]
  | none =>
    rw [if_neg (by simp), trail_concat, trail_set_of_none now hv]

end View

end FileSystem

end Workbench
