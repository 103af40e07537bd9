import Workbench.FileSystem.Directory
import Workbench.Proofs.Granted
import Workbench.Proofs.Making

set_option autoImplicit false

/-! # Moving files and directories

Moving a directory gives every node at or below it a new key, one node after the other. No new key
is an old one, since neither path lies below the other, and none is taken, since nothing is at the
target; so the order does not matter and each node arrives as it left. The descriptors follow by
reading their new paths from texts, which never fails: the texts are written forms of paths. -/

namespace Workbench.FileSystem

variable {nodes : Dictionary String Node} {v : View} {fs : FileSystem}

/-! ## Moving under keys -/

theorem nodup_keys_moveNode (h : nodes.keys.Nodup) (source target : String) :
    (moveNode nodes source target).keys.Nodup := by
  unfold moveNode
  split
  · exact Dictionary.nodup_keys_put (Dictionary.nodup_keys_remove h source) target _
  · exact h

theorem get?_moveNode (source : String) {target : String} (hfree : nodes.get? target = none)
    (key : String) :
    (moveNode nodes source target).get? key =
      if target = key then nodes.get? source
      else if source = key then none else nodes.get? key := by
  unfold moveNode
  split
  · next node hnode => rw [Dictionary.get?_put, Dictionary.get?_remove, hnode]
  · next hnone =>
    split
    · next heq => rw [← heq, hfree, hnone]
    · split
      · next heq => rw [← heq, hnone]
      · rfl

theorem nodup_keys_moveEach (moves : List (String × String)) (h : nodes.keys.Nodup) :
    (moveEach moves nodes).keys.Nodup := by
  induction moves generalizing nodes with
  | nil => exact h
  | cons move moves ih => exact ih (nodup_keys_moveNode h move.1 move.2)

/-- Moves between different keys, to keys under which nothing is. -/
structure Separate (nodes : Dictionary String Node) (moves : List (String × String)) : Prop where
  sources : (moves.map Prod.fst).Nodup
  targets : (moves.map Prod.snd).Nodup
  apart : ∀ key ∈ moves.map Prod.fst, key ∉ moves.map Prod.snd
  free : ∀ key ∈ moves.map Prod.snd, nodes.get? key = none

/-- After the first of separate moves the others are separate still. -/
theorem Separate.tail {source target : String} {moves : List (String × String)}
    (h : Separate nodes ((source, target) :: moves)) :
    Separate (moveNode nodes source target) moves := by
  obtain ⟨hsources, htargets, hapart, hfree⟩ := h
  simp only [List.map_cons, List.nodup_cons, List.mem_cons] at hsources htargets hapart hfree
  refine ⟨hsources.2, htargets.2, fun key hkey hmem => hapart key (Or.inr hkey) (Or.inr hmem), ?_⟩
  intro key hkey
  rw [get?_moveNode _ (hfree target (Or.inl rfl)), if_neg, hfree key (Or.inr hkey), ite_self]
  rintro rfl
  exact htargets.1 hkey

/-- What separate moves do: each node arrives, nothing stays behind, and nothing else changes. -/
theorem get?_moveEach {moves : List (String × String)} (h : Separate nodes moves) :
    (∀ source target, (source, target) ∈ moves →
      (moveEach moves nodes).get? target = nodes.get? source) ∧
    (∀ key ∈ moves.map Prod.fst, (moveEach moves nodes).get? key = none) ∧
    (∀ key, key ∉ moves.map Prod.fst → key ∉ moves.map Prod.snd →
      (moveEach moves nodes).get? key = nodes.get? key) := by
  induction moves generalizing nodes with
  | nil => exact ⟨by simp, by simp, fun _ _ _ => rfl⟩
  | cons move moves ih =>
    obtain ⟨s, t⟩ := move
    obtain ⟨harrive, hleave, hother⟩ := ih h.tail
    obtain ⟨hsources, htargets, hapart, hfree⟩ := h
    simp only [List.map_cons, List.nodup_cons, List.mem_cons] at hsources htargets hapart hfree ⊢
    -- the first move leaves the keys of the others alone
    have hne : s ≠ t := fun heq => hapart s (Or.inl rfl) (Or.inl heq)
    have hget := get?_moveNode s (hfree t (Or.inl rfl))
    refine ⟨?_, ?_, ?_⟩
    · rintro source target (heq | hmem)
      · obtain ⟨rfl, rfl⟩ := Prod.mk.inj heq
        have htail : target ∉ moves.map Prod.fst := fun hmem =>
          hapart target (Or.inr hmem) (Or.inl rfl)
        exact (hother target htail htargets.1).trans (by rw [hget, if_pos rfl])
      · have hsource : source ∈ moves.map Prod.fst := List.mem_map.2 ⟨_, hmem, rfl⟩
        have hst : t ≠ source := fun heq => hapart source (Or.inr hsource) (Or.inl heq.symm)
        have hss : s ≠ source := fun heq => hsources.1 (heq ▸ hsource)
        exact (harrive source target hmem).trans (by rw [hget, if_neg hst, if_neg hss])
    · rintro key (rfl | hmem)
      · have hkey : key ∉ moves.map Prod.snd := fun hmem => hapart key (Or.inl rfl) (Or.inr hmem)
        exact (hother key hsources.1 hkey).trans (by rw [hget, if_neg hne.symm, if_pos rfl])
      · exact hleave key hmem
    · intro key hs ht
      rw [not_or] at hs ht
      exact (hother key hs.2 ht.2).trans
        (by rw [hget, if_neg fun heq => ht.1 heq.symm, if_neg fun heq => hs.1 heq.symm])

/-! ## New keys -/

theorem rebase_eq_some_iff {old new key key' : String} :
    rebase old new key = some key' ↔
      ∃ rest, key.toList = old.toList ++ rest ∧ key' = new ++ String.ofList rest := by
  rw [rebase, Option.map_eq_some_iff]
  constructor
  · rintro ⟨rest, hrest, rfl⟩
    exact ⟨rest, Text.strip?_eq_some_iff.1 hrest, rfl⟩
  · rintro ⟨rest, hrest, rfl⟩
    exact ⟨rest, Text.strip?_eq_some_iff.2 hrest, rfl⟩

theorem rebase_injective {old new key other key' : String} (h : rebase old new key = some key')
    (hother : rebase old new other = some key') : key = other := by
  obtain ⟨rest, hkey, rfl⟩ := rebase_eq_some_iff.1 h
  obtain ⟨more, hother, heq⟩ := rebase_eq_some_iff.1 hother
  rw [String.append_right_inj, String.ofList_inj] at heq
  rw [← String.toList_inj, hkey, hother, heq]

/-- A rebased key begins with the new text, as the key did with the old. -/
theorem prefix_of_rebase {old new key key' : String} (h : rebase old new key = some key') :
    old.toList <+: key.toList ∧ new.toList <+: key'.toList := by
  obtain ⟨rest, hkey, rfl⟩ := rebase_eq_some_iff.1 h
  refine ⟨⟨rest, hkey.symm⟩, ⟨rest, ?_⟩⟩
  rw [String.toList_append, String.toList_ofList]

/-- At or below a directory, rebasing the key of a path is the key of the rebased path. -/
theorem rebase_key {source target p q : Path} {rest : List String} {dir : Bool}
    (hp : p.parts = source.parts ++ rest) (hq : q.parts = target.parts ++ rest)
    (hrest : dir = false → rest ≠ []) :
    rebase source.dirKey target.dirKey (p.key dir) = some (q.key dir) := by
  have hpne : dir = false → p.parts ≠ [] := fun hdir => by
    rw [hp]
    exact List.append_ne_nil_of_right_ne_nil _ (hrest hdir)
  have hqne : dir = false → q.parts ≠ [] := fun hdir => by
    rw [hq]
    exact List.append_ne_nil_of_right_ne_nil _ (hrest hdir)
  -- behind the directory the key goes on with a slash
  obtain ⟨more, hmore⟩ : ∃ more, Path.spell rest ++ (if dir then ['/'] else []) = '/' :: more := by
    cases rest with
    | nil =>
      cases dir with
      | true => exact ⟨[], rfl⟩
      | false => exact absurd rfl (hrest rfl)
    | cons part rest => exact ⟨_, by rw [Path.spell_cons]; rfl⟩
  rw [rebase_eq_some_iff]
  refine ⟨more, ?_, ?_⟩
  · rw [Path.toList_key hpne, hp, Path.spell_append, List.append_assoc, hmore, Path.toList_dirKey,
      List.append_assoc]
    rfl
  · rw [← String.toList_inj, String.toList_append, String.toList_ofList, Path.toList_key hqne, hq,
      Path.spell_append, List.append_assoc, hmore, Path.toList_dirKey, List.append_assoc]
    rfl

/-- Some components below a path make a path. -/
theorem exists_append (p : Path) {rest : List String}
    (hrest : ∀ part ∈ rest, Path.isComponent part = true) :
    ∃ q : Path, q.parts = p.parts ++ rest := by
  refine ⟨⟨p.parts ++ rest, true, fun part hpart => ?_, fun _ => rfl⟩, rfl⟩
  exact (List.mem_append.1 hpart).elim (p.proper part) (hrest part)

theorem mem_movesUnder {old new source target : String} :
    (source, target) ∈ movesUnder old new nodes ↔
      source ∈ nodes.keys ∧ rebase old new source = some target := by
  rw [movesUnder, List.mem_filterMap]
  constructor
  · rintro ⟨key, hkey, hmove⟩
    obtain ⟨key', hrebase, heq⟩ := Option.map_eq_some_iff.1 hmove
    obtain ⟨rfl, rfl⟩ := Prod.mk.inj heq
    exact ⟨hkey, hrebase⟩
  · rintro ⟨hkey, hrebase⟩
    exact ⟨source, hkey, by rw [hrebase, Option.map_some]⟩

theorem nodup_sources_movesUnder (h : nodes.keys.Nodup) (old new : String) :
    ((movesUnder old new nodes).map Prod.fst).Nodup := by
  rw [movesUnder, List.map_filterMap]
  refine h.filterMap fun key other key' hkey hother => ?_
  simp only [Option.mem_def, Option.map_map, Option.map_eq_some_iff] at hkey hother
  obtain ⟨_, -, rfl⟩ := hkey
  obtain ⟨_, -, heq⟩ := hother
  exact heq.symm

theorem nodup_targets_movesUnder (h : nodes.keys.Nodup) (old new : String) :
    ((movesUnder old new nodes).map Prod.snd).Nodup := by
  rw [movesUnder, List.map_filterMap]
  refine h.filterMap fun key other key' hkey hother => ?_
  simp only [Option.mem_def, Option.map_map, Option.map_eq_some_iff] at hkey hother
  obtain ⟨_, hkey, rfl⟩ := hkey
  obtain ⟨_, hother, rfl⟩ := hother
  exact rebase_injective hkey hother

/-! ## Moving in a tree -/

namespace Shows

/-- Moving a file is moving the tree that it is. -/
theorem moveNode (h : fs.Shows v) {source target : Path} {node : Node}
    (hv : v source.parts = some node) (hfile : node.isDir = false)
    (hfree : v target.parts = none) :
    Represents (FileSystem.moveNode fs.nodes source.fileKey target.fileKey)
      (v.move source.parts target.parts) := by
  have hsource : source.parts ≠ [] := h.table.parts_ne_nil hv hfile
  have htarget : target.parts ≠ [] := by
    intro hp
    obtain ⟨root, hroot, -⟩ := h.table.root
    rw [hp, hroot] at hfree
    cases hfree
  have hget : fs.nodes.get? source.fileKey = some node :=
    (h.table.found _ node).2 ⟨source, by rw [hfile]; rfl, hv⟩
  have hremove := h.table.remove hsource hv
  have hput := hremove.put target node (fun old hold => ?_) (fun _ => htarget)
  · rw [hfile, Path.key_false, Path.key_false,
      h.tree.set_set_eq_move hv (Node.names_eq_nil_of_isDir_eq_false hfile) hfree] at hput
    rw [FileSystem.moveNode, hget]
    exact hput
  · unfold View.set at hold
    split at hold
    · cases hold
    · exact absurd (hfree.symm.trans hold) (by simp)

/-- A key below the target of a move is free. -/
theorem get?_under (h : fs.Shows v) {target : Path} (hfree : v target.parts = none)
    {key : String} (hkey : target.dirKey.toList <+: key.toList) : fs.nodes.get? key = none := by
  rw [← Option.not_isSome_iff_eq_none, Option.isSome_iff_exists]
  rintro ⟨node, hget⟩
  obtain ⟨p, rfl, hv⟩ := (h.table.found key node).1 hget
  rw [Path.dirKey_prefix_key target (h.table.parts_ne_nil hv)] at hkey
  exact absurd (hv.symm.trans (h.tree.none_under hfree hkey.1)) (by simp)

/-- The moves below a directory are separate. -/
theorem separate_movesUnder (h : fs.Shows v) (source : Path) {target : Path}
    (hfree : v target.parts = none) :
    Separate fs.nodes (movesUnder source.dirKey target.dirKey fs.nodes) := by
  have hnone : ∀ key ∈ (movesUnder source.dirKey target.dirKey fs.nodes).map Prod.snd,
      fs.nodes.get? key = none := by
    intro key hkey
    obtain ⟨move, hmove, rfl⟩ := List.mem_map.1 hkey
    exact h.get?_under hfree (prefix_of_rebase (mem_movesUnder.1 hmove).2).2
  refine ⟨nodup_sources_movesUnder h.table.distinct _ _,
    nodup_targets_movesUnder h.table.distinct _ _, fun key hkey hmem => ?_, hnone⟩
  obtain ⟨move, hmove, rfl⟩ := List.mem_map.1 hkey
  have hsome := (Dictionary.mem_keys_iff _ _).1 (mem_movesUnder.1 hmove).1
  rw [hnone _ hmem] at hsome
  cases hsome

/-- The node at or below a directory is moved to the rebased path. -/
theorem mem_movesUnder_key (h : fs.Shows v) {source target p q : Path} {rest : List String}
    {dir node : Node} (hv : v source.parts = some dir) (hdir : dir.isDir = true)
    (hp : p.parts = source.parts ++ rest) (hq : q.parts = target.parts ++ rest)
    (hnode : v p.parts = some node) :
    (p.key node.isDir, q.key node.isDir) ∈ movesUnder source.dirKey target.dirKey fs.nodes := by
  refine mem_movesUnder.2 ⟨?_, rebase_key hp hq fun hfile hrest => ?_⟩
  · rw [Dictionary.mem_keys_iff, (h.table.found _ node).2 ⟨p, rfl, hnode⟩]
    rfl
  · rw [hp, hrest, List.append_nil, hv, Option.some.injEq] at hnode
    rw [← hnode, hdir] at hfile
    cases hfile

/-- A node that is found after a move has arrived from the source, or has stayed where it was. -/
theorem exists_of_get?_moveNodes (h : fs.Shows v) {source target : Path} {dir : Node}
    (hv : v source.parts = some dir) (hdir : dir.isDir = true) (hfree : v target.parts = none)
    {key : String} {node : Node}
    (hget : (FileSystem.moveNodes source.dirKey target.dirKey fs.nodes).get? key = some node) :
    ∃ q : Path, q.key node.isDir = key ∧ v.move source.parts target.parts q.parts = some node := by
  obtain ⟨harrive, hleave, hother⟩ := get?_moveEach (h.separate_movesUnder source hfree)
  by_cases htarget : key ∈ (movesUnder source.dirKey target.dirKey fs.nodes).map Prod.snd
  · -- arrived from a path at or below the source
    obtain ⟨⟨old, _⟩, hmove, rfl⟩ := List.mem_map.1 htarget
    obtain ⟨p, rfl, hnode⟩ := (h.table.found old node).1 ((harrive _ _ hmove).symm.trans hget)
    have hrebase := (mem_movesUnder.1 hmove).2
    obtain ⟨rest, hrest⟩ := ((Path.dirKey_prefix_key source (h.table.parts_ne_nil hnode)).1
      (prefix_of_rebase hrebase).1).1
    obtain ⟨q, hq⟩ := exists_append target fun part hpart =>
      p.proper part (hrest ▸ List.mem_append_right _ hpart)
    have hmove' := mem_movesUnder.1 (h.mem_movesUnder_key hv hdir hrest.symm hq hnode)
    refine ⟨q, Option.some.inj (hmove'.2.symm.trans hrebase), ?_⟩
    rw [hq, View.move_of_target, hrest, hnode]
  by_cases hkey : key ∈ (movesUnder source.dirKey target.dirKey fs.nodes).map Prod.fst
  · exact absurd ((hleave key hkey).symm.trans hget) (by simp)
  · -- stayed where it was, so neither below the source nor below the target
    obtain ⟨p, rfl, hnode⟩ := (h.table.found key node).1
      ((hother key hkey htarget).symm.trans hget)
    refine ⟨p, rfl, (View.move_of_other v ?_ ?_).trans hnode⟩
    · rintro ⟨rest, hrest⟩
      obtain ⟨q, hq⟩ := exists_append target fun part hpart =>
        p.proper part (hrest ▸ List.mem_append_right _ hpart)
      exact hkey (List.mem_map.2 ⟨_, h.mem_movesUnder_key hv hdir hrest.symm hq hnode, rfl⟩)
    · intro hp
      exact absurd (hnode.symm.trans (h.tree.none_under hfree hp)) (by simp)

/-- What a moved tree shows is found after the move. -/
theorem get?_moveNodes (h : fs.Shows v) {source target : Path} {dir : Node}
    (hv : v source.parts = some dir) (hdir : dir.isDir = true) (hfree : v target.parts = none)
    {q : Path} {node : Node} (hnode : v.move source.parts target.parts q.parts = some node) :
    (FileSystem.moveNodes source.dirKey target.dirKey fs.nodes).get? (q.key node.isDir) =
      some node := by
  obtain ⟨harrive, -, hother⟩ := get?_moveEach (h.separate_movesUnder source hfree)
  by_cases htarget : target.parts <+: q.parts
  · obtain ⟨rest, hrest⟩ := htarget
    rw [← hrest, View.move_of_target] at hnode
    obtain ⟨p, hp⟩ := exists_append source fun part hpart =>
      q.proper part (hrest ▸ List.mem_append_right _ hpart)
    rw [← hp] at hnode
    rw [FileSystem.moveNodes, harrive _ _ (h.mem_movesUnder_key hv hdir hp hrest.symm hnode)]
    exact (h.table.found _ node).2 ⟨p, rfl, hnode⟩
  by_cases hbelow : source.parts <+: q.parts
  · exact absurd ((View.move_of_source v hbelow htarget).symm.trans hnode) (by simp)
  · rw [View.move_of_other v hbelow htarget] at hnode
    have hq := h.table.parts_ne_nil hnode
    -- the key is neither one that is left nor one that is taken
    rw [FileSystem.moveNodes, hother]
    · exact (h.table.found _ node).2 ⟨q, rfl, hnode⟩
    · intro hmem
      obtain ⟨move, hmove, heq⟩ := List.mem_map.1 hmem
      have hpre := (prefix_of_rebase (mem_movesUnder.1 hmove).2).1
      rw [heq, Path.dirKey_prefix_key source hq] at hpre
      exact hbelow hpre.1
    · intro hmem
      obtain ⟨move, hmove, heq⟩ := List.mem_map.1 hmem
      have hpre := (prefix_of_rebase (mem_movesUnder.1 hmove).2).2
      rw [heq, Path.dirKey_prefix_key target hq] at hpre
      exact htarget hpre.1

/-- Moving the nodes under the key of a directory is moving the tree below it. -/
theorem moveNodes (h : fs.Shows v) {source target : Path} {dir : Node}
    (hv : v source.parts = some dir) (hdir : dir.isDir = true) (hsource : source.parts ≠ [])
    (hfree : v target.parts = none) :
    Represents (FileSystem.moveNodes source.dirKey target.dirKey fs.nodes)
      (v.move source.parts target.parts) where
  distinct := nodup_keys_moveEach _ h.table.distinct
  found key node := by
    refine ⟨h.exists_of_get?_moveNodes hv hdir hfree, ?_⟩
    rintro ⟨q, rfl, hnode⟩
    exact h.get?_moveNodes hv hdir hfree hnode
  proper parts hsome := by
    by_cases htarget : target.parts <+: parts
    · obtain ⟨rest, rfl⟩ := htarget
      rw [View.move_of_target] at hsome
      intro part hpart
      rcases List.mem_append.1 hpart with hpart | hpart
      · exact target.proper part hpart
      · exact h.table.proper _ hsome part (List.mem_append_right _ hpart)
    by_cases hbelow : source.parts <+: parts
    · rw [View.move_of_source v hbelow htarget] at hsome
      cases hsome
    · rw [View.move_of_other v hbelow htarget] at hsome
      exact h.table.proper parts hsome
  root := by
    obtain ⟨root, hroot, hisDir⟩ := h.table.root
    have htarget : target.parts ≠ [] := by
      intro hp
      rw [hp, hroot] at hfree
      cases hfree
    exact ⟨root, (View.move_of_other v (mt List.prefix_nil.1 hsource)
      (mt List.prefix_nil.1 htarget)).trans hroot, hisDir⟩

end Shows

/-! ## Following -/

/-- A descriptor in a moved directory, or on it, finds its new path. -/
theorem parse_followed {source target p : Path} (hsource : source.parts ≠ [])
    (htarget : target.parts ≠ []) (hp : source.parts <+: p.parts) :
    ∃ q, Path.parse (target.toString ++
        String.ofList (p.toString.toList.drop source.toString.length)) = .ok q ∧
      q.parts = target.parts ++ p.parts.drop source.parts.length := by
  obtain ⟨rest, hrest⟩ := hp
  obtain ⟨q, hq⟩ := exists_append target fun part hpart =>
    p.proper part (hrest ▸ List.mem_append_right _ hpart)
  have hpne : p.parts ≠ [] := hrest ▸ List.append_ne_nil_of_left_ne_nil hsource rest
  have hqne : target.parts ++ rest ≠ [] := List.append_ne_nil_of_left_ne_nil htarget rest
  have htext : (target.toString ++
      String.ofList (p.toString.toList.drop source.toString.length)).toList =
        Path.spell (target.parts ++ rest) := by
    rw [String.toList_append, String.toList_ofList, ← String.length_toList, Path.toList_toString,
      Path.toList_toString, Path.toList_toString, if_neg hsource, if_neg htarget, if_neg hpne,
      ← hrest, Path.spell_append, Path.spell_append, List.drop_left]
  obtain ⟨q', hq', hparts, -⟩ := Path.parse_of_spell hqne (hq ▸ q.proper) htext
  refine ⟨q', hq', ?_⟩
  rw [← hrest, List.drop_left]
  exact hparts

/-- All descriptors can follow a move between paths other than the root. -/
theorem followDir_eq_ok {source target : Path} (hsource : source.parts ≠ [])
    (htarget : target.parts ≠ []) (descriptors : Dictionary Nat Descriptor) :
    ∃ descriptors', followDir source target descriptors = (.ok (), descriptors') := by
  induction descriptors with
  | nil => exact ⟨[], rfl⟩
  | cons entry rest ih =>
    obtain ⟨n, d⟩ := entry
    obtain ⟨rest', hrest⟩ := ih
    rw [followDir, hrest]
    split
    · next hunder =>
      obtain ⟨q, hq, -⟩ :=
        parse_followed hsource htarget ((Path.liesUnder_dirKey d.path source).1 hunder)
      rw [hq]
      exact ⟨_, rfl⟩
    · exact ⟨_, rfl⟩

/-! ## Renaming -/

/-- A node may be moved from a path to another. -/
structure Movable (v : View) (source target : Path) (node : Node) : Prop where
  there : v source.parts = some node
  source_ne : source.parts ≠ []
  target_ne : target.parts ≠ []
  free : v target.parts = none
  parent : ∃ dir, v target.parts.dropLast = some dir ∧ dir.isDir = true
  outside : node.isDir = true → ¬ source.parts <+: target.parts

/-- What would hold a path other than the root is a directory, if it is required to be. -/
theorem Represents.requireParent (h : Represents fs.nodes v) {p : Path} (hp : p.parts ≠ [])
    (hok : fs.requireParent p = .ok ()) :
    ∃ dir, v p.parts.dropLast = some dir ∧ dir.isDir = true := by
  obtain ⟨d, name, hparts⟩ := exists_concat hp
  obtain ⟨parent, hparent, rfl⟩ := parent?_eq hparts
  rw [FileSystem.requireParent, hparent] at hok
  simp only [h.isDir_eq] at hok
  rw [hparts, List.dropLast_concat]
  split at hok
  · next hdir => exact (Option.any_eq_true _ _).1 hdir
  · split at hok <;> cases hok

namespace Shows

/-- A planned move is between the paths that the two texts lead to: they are one, or it may be
    made. -/
theorem planMove_eq (h : fs.Shows v) {sourceText targetText : String} {move : Move}
    (hplan : fs.planMove sourceText targetText = .ok move) :
    ∃ source target, fs.resolve sourceText = .ok source ∧ fs.resolve targetText = .ok target ∧
      (move = .none ∧ source.parts = target.parts ∨ ∃ node, Movable v source target node ∧
        move = if node.isDir then .dir source target else .file source target) := by
  simp only [FileSystem.planMove, throw_bind, bind_eq_ok_iff, check_eq_ok_iff] at hplan
  obtain ⟨source, hsource, target, htarget, hroots, hplan⟩ := hplan
  refine ⟨source, target, hsource, htarget, ?_⟩
  simp only [Bool.or_eq_true, Path.isRoot_iff, not_or] at hroots
  split at hplan
  · next heq => exact Or.inl ⟨(Except.ok.inj hplan).symm, Path.toString_inj.1 heq⟩
  rw [h.table.keyOf?_eq, h.table.keyOf?_eq] at hplan
  cases hnode : v source.parts with
  | none =>
    rw [hnode] at hplan
    cases hplan
  | some node =>
    rw [hnode] at hplan
    simp only [Option.map_some, check_eq_ok_iff] at hplan
    obtain ⟨hfree, hplan⟩ := hplan
    rw [Option.isSome_map, Bool.not_eq_true, Option.isSome_eq_false_iff, Option.isNone_iff_eq_none]
      at hfree
    have hkey := Path.getLast?_key (h.table.parts_ne_nil hnode)
    split at hplan
    · next hslash =>
      split at hplan
      · obtain ⟨_, -, hthrow⟩ := bind_eq_ok_iff.1 hplan
        exact absurd hthrow (throw_ne_ok _ _)
      · next hunder =>
        simp only [bind_eq_ok_iff, pure_eq_ok_iff] at hplan
        obtain ⟨_, hparent, rfl⟩ := hplan
        rw [Path.liesUnder_dirKey] at hunder
        exact Or.inr ⟨node, ⟨hnode, hroots.1, hroots.2, hfree,
          h.table.requireParent hroots.2 hparent, fun _ => hunder⟩, (if_pos (hkey.1 hslash)).symm⟩
    · next hslash =>
      simp only [bind_eq_ok_iff, pure_eq_ok_iff] at hplan
      obtain ⟨_, hparent, rfl⟩ := hplan
      have hfile : ¬ node.isDir = true := mt hkey.2 hslash
      exact Or.inr ⟨node, ⟨hnode, hroots.1, hroots.2, hfree,
        h.table.requireParent hroots.2 hparent, fun hdir => absurd hdir hfile⟩, (if_neg hfile).symm⟩

/-- A move that is planned may be made. -/
theorem planMove (h : fs.Shows v) {sourceText targetText : String} {move : Move}
    (hplan : fs.planMove sourceText targetText = .ok move) :
    move = .none ∨ ∃ source target node, Movable v source target node ∧
      move = if node.isDir then .dir source target else .file source target := by
  obtain ⟨source, target, -, -, ⟨hnone, -⟩ | ⟨node, hmovable, hmove⟩⟩ := h.planMove_eq hplan
  · exact Or.inl hnone
  · exact Or.inr ⟨source, target, node, hmovable, hmove⟩

end Shows

/-- The directory that is to hold a moved node does not move with it. -/
theorem Movable.not_prefix_dropLast {source target : Path} {node : Node}
    (h : Movable v source target node) (hv : v.IsTree) :
    ¬ source.parts <+: target.parts.dropLast := by
  obtain ⟨dir, hdir, hisDir⟩ := h.parent
  cases hkind : node.isDir with
  | true => exact fun hp => h.outside hkind (hp.trans (List.dropLast_prefix _))
  | false => exact hv.not_prefix_of_file h.there hkind hdir hisDir

/-- Once the nodes are moved and the names changed, there is a tree again. -/
theorem Movable.relink {source target : Path} {node : Node}
    (h : Movable v source target node) (hv : v.IsTree)
    (hmoved : Represents fs.nodes (v.move source.parts target.parts))
    {d e : List String} {name other : String} (hd : source.parts = d ++ [name])
    (he : target.parts = e ++ [other]) :
    (fs.relink source target).Shows
      (((v.move source.parts target.parts).modify d (·.dropName fs.clock name)).modify e
        (·.addName fs.clock other)) := by
  obtain ⟨dir, hdir, hisDir⟩ := h.parent
  have hfree := h.free
  have hthere := h.there
  have hout := h.not_prefix_dropLast hv
  rw [he, List.dropLast_concat] at hdir hout
  rw [he] at hfree
  rw [hd] at hthere hout
  have hunlinked : Represents (fs.unlinkName source).nodes _ := hmoved.unlinkName hd
  have hlinked := hunlinked.link he
  have hclock : (fs.unlinkName source).clock = fs.clock := by rw [unlinkName_eq]
  rw [hclock] at hlinked
  have htree := hv.move fs.clock (hthere ▸ Option.isSome_some) hfree hdir hisDir hout
  rw [← hd, ← he] at htree
  exact ⟨hlinked, htree⟩

/-- Renaming never fails once it has begun, and leaves a tree. -/
theorem Shows.carryOut (h : fs.Shows v) {source target : Path} {node : Node}
    (hmovable : Movable v source target node) :
    ∃ fs', fs.carryOut (if node.isDir then .dir source target else .file source target) =
      (.ok (), fs') ∧ ∃ v', fs'.Shows v' := by
  obtain ⟨d, name, hd⟩ := exists_concat hmovable.source_ne
  obtain ⟨e, other, he⟩ := exists_concat hmovable.target_ne
  cases hkind : node.isDir with
  | true =>
    obtain ⟨descriptors, hfollow⟩ :=
      followDir_eq_ok hmovable.source_ne hmovable.target_ne fs.descriptors
    have hmoved := h.moveNodes hmovable.there hkind hmovable.source_ne hmovable.free
    rw [if_pos rfl, FileSystem.carryOut, hfollow]
    exact ⟨_, rfl, _, hmovable.relink h.tree hmoved hd he⟩
  | false =>
    have hmoved := h.moveNode hmovable.there hkind hmovable.free
    rw [if_neg Bool.false_ne_true, FileSystem.carryOut]
    exact ⟨_, rfl, _, hmovable.relink h.tree hmoved hd he⟩

end Workbench.FileSystem
