import Workbench.Proofs.DescriptorSteps

set_option autoImplicit false

/-! # Moving a subtree

A move is granted exactly if something is at the one path, nothing at the other, and the other can
be made in a directory that does not move along. It then takes the whole subtree from the one path
to the other and leaves everything else as it is, but for the two directories that hold the paths:
the one gives a name away and the other gets one. Since what is left is a tree again, in which the
other path holds the subtree and the first holds nothing, the move back is granted, and after it
every directory lists what it listed before. -/

namespace Workbench.FileSystem

variable {v : View} {fs fs' : FileSystem} {s t : Path} {source target : String} {node : Node}

/-! ## What a move asks for -/

/-- What is at one path may be moved to another. -/
structure Allowed (fs : FileSystem) (s t : Path) : Prop where
  source : s.isRoot = false
  target : t.isRoot = false
  there : (fs.nodeAt s).isSome
  free : fs.nodeAt t = none
  parent : ∃ d, t.parent? = some d ∧ fs.isDir d = true
  /-- A directory does not move into itself. -/
  outside : fs.isDir s = true → ¬ s.parts <+: t.parts

namespace Shows

/-- The directory that holds a path is seen above its last component. -/
theorem parent_isDir_iff (h : fs.Shows v) {p : Path} (hp : p.parts ≠ []) :
    (∃ d, p.parent? = some d ∧ fs.isDir d = true) ↔
      ∃ dir, v p.parts.dropLast = some dir ∧ dir.isDir = true := by
  obtain ⟨place, name, hparts⟩ := exists_concat hp
  obtain ⟨parent, hparent, rfl⟩ := parent?_eq hparts
  rw [hparent, hparts, List.dropLast_concat]
  simp only [Option.some.injEq, exists_eq_left', h.table.isDir_eq, Option.any_eq_true]

theorem allowed_iff (h : fs.Shows v) : Allowed fs s t ↔ ∃ node, Movable v s t node := by
  constructor
  · intro hallowed
    have ht := (Path.isRoot_eq_false_iff t).1 hallowed.target
    have hthere := hallowed.there
    have hfree := hallowed.free
    rw [h.table.nodeAt_eq] at hthere hfree
    obtain ⟨node, hnode⟩ := Option.isSome_iff_exists.1 hthere
    refine ⟨node, hnode, (Path.isRoot_eq_false_iff s).1 hallowed.source, ht, hfree,
      (h.parent_isDir_iff ht).1 hallowed.parent, fun hdir => hallowed.outside ?_⟩
    rw [h.table.isDir_eq, hnode, Option.any_some, hdir]
  · rintro ⟨node, hmovable⟩
    refine ⟨(Path.isRoot_eq_false_iff s).2 hmovable.source_ne,
      (Path.isRoot_eq_false_iff t).2 hmovable.target_ne, ?_, ?_,
      (h.parent_isDir_iff hmovable.target_ne).2 hmovable.parent, fun hdir => hmovable.outside ?_⟩
    · rw [h.table.nodeAt_eq, hmovable.there]
      rfl
    · rw [h.table.nodeAt_eq, hmovable.free]
    · rwa [h.table.isDir_eq, hmovable.there, Option.any_some] at hdir

/-- A node that may be moved is planned to be. -/
theorem planMove_of_movable (h : fs.Shows v) (hs : fs.resolve source = .ok s)
    (ht : fs.resolve target = .ok t) (hmovable : Movable v s t node) :
    fs.planMove source target = .ok (if node.isDir then .dir s t else .file s t) := by
  have hroots : ¬ (s.isRoot || t.isRoot) = true := by
    simp [Path.isRoot_iff, hmovable.source_ne, hmovable.target_ne]
  have hne : ¬ s.toString = t.toString := by
    rw [Path.toString_inj]
    intro heq
    have hthere := hmovable.there
    rw [heq, hmovable.free] at hthere
    cases hthere
  have hparent : fs.requireParent t = .ok () := by
    obtain ⟨d, hd, hisDir⟩ := (h.parent_isDir_iff hmovable.target_ne).2 hmovable.parent
    rw [FileSystem.requireParent, hd]
    exact if_pos hisDir
  simp only [FileSystem.planMove, throw_bind, bind_eq_ok_iff, check_eq_ok_iff]
  refine ⟨s, hs, t, ht, hroots, ?_⟩
  rw [if_neg hne, h.table.keyOf?_eq, h.table.keyOf?_eq, hmovable.there, hmovable.free]
  simp only [Option.map_some, Option.map_none, check_eq_ok_iff, Path.getLast?_key
    (h.table.parts_ne_nil hmovable.there)]
  refine ⟨by decide, bind_eq_ok_iff.2 ⟨(), hparent, ?_⟩⟩
  split
  · next hdir =>
    simp only [check_eq_ok_iff, Path.liesUnder_dirKey]
    exact ⟨hmovable.outside hdir, rfl⟩
  · rfl

/-- Between different paths a move is granted exactly if it may be made. -/
theorem rename_ok_iff (h : fs.Shows v) (hs : fs.resolve source = .ok s)
    (ht : fs.resolve target = .ok t) (hne : s.parts ≠ t.parts) :
    (fs.rename source target).1 = .ok () ↔ ∃ node, Movable v s t node := by
  constructor
  · intro hok
    have hcases := h.rename_cases source target
    generalize fs.rename source target = outcome at hcases hok
    cases hcases with
    | refused e hplan => cases hok
    | idle s' t' hs' ht' hplan hsame =>
      have hleads := Except.ok.inj (hs.symm.trans hs')
      have hgoes := Except.ok.inj (ht.symm.trans ht')
      exact absurd (hleads ▸ hgoes ▸ hsame) hne
    | moved s' t' node nodes table hs' ht' hmovable hplan hnodes htable =>
      have hleads := Except.ok.inj (hs.symm.trans hs')
      have hgoes := Except.ok.inj (ht.symm.trans ht')
      exact ⟨node, hleads ▸ hgoes ▸ hmovable⟩
  · rintro ⟨node, hmovable⟩
    obtain ⟨fs', hdone, -⟩ := h.carryOut hmovable
    rw [FileSystem.rename, h.planMove_of_movable hs ht hmovable]
    dsimp only
    rw [hdone]

end Shows

/-! ## What a move leaves -/

/-- The names in a directory after a move: the name of the one path is struck where that path was,
    and the name of the other is added at the end where that path is. -/
def relisted (s t d : Path) (names : List String) : List String :=
  (if d.parts = s.parts.dropLast then names.filter (some · ≠ s.fileName?) else names) ++
    (if d.parts = t.parts.dropLast then t.fileName?.toList else [])

/-- Everything at and below a path is at and below another, and nothing else has changed but the
    two directories that hold the paths. -/
structure Moved (fs fs' : FileSystem) (s t : Path) : Prop where
  arrived : ∀ (p q : Path) (rest : List String), p.parts = s.parts ++ rest →
    q.parts = t.parts ++ rest → fs'.nodeAt q = fs.nodeAt p
  left : ∀ p : Path, s.parts <+: p.parts → fs'.nodeAt p = none
  holders : ∀ d : Path, d.parts = s.parts.dropLast ∨ d.parts = t.parts.dropLast →
    ∃ names times, fs.nodeAt d = some (.dir names times) ∧
      fs'.nodeAt d = some (.dir (relisted s t d names) { times with modified := fs.clock })
  others : ∀ p : Path, ¬ s.parts <+: p.parts → ¬ t.parts <+: p.parts →
    p.parts ≠ s.parts.dropLast → p.parts ≠ t.parts.dropLast → fs'.nodeAt p = fs.nodeAt p
  clock : fs'.clock = fs.clock
  cwd : fs'.cwd = fs.cwd
  stdout : fs'.stdout = fs.stdout
  stderr : fs'.stderr = fs.stderr

namespace View

/-- A tree from which a subtree was moved to another place, and the names changed. -/
def moved (v : View) (now : Time) (d : List String) (name : String) (e : List String)
    (other : String) : View :=
  ((v.move (d ++ [name]) (e ++ [other])).modify d (·.dropName now name)).modify e
    (·.addName now other)

variable {now : Time} {d e place : List String} {name other : String} {names : List String}
  {times : Times}

theorem moved_of_ne (hd : place ≠ d) (he : place ≠ e) :
    v.moved now d name e other place = v.move (d ++ [name]) (e ++ [other]) place := by
  simp only [moved, modify, if_neg hd, if_neg he]

/-- What has arrived is what was there before. -/
theorem moved_of_target (hback : ¬ e ++ [other] <+: d) (rest : List String) :
    v.moved now d name e other (e ++ [other] ++ rest) = v (d ++ [name] ++ rest) := by
  have hd : e ++ [other] ++ rest ≠ d := fun heq => hback ⟨rest, heq⟩
  have he : e ++ [other] ++ rest ≠ e := by
    intro heq
    have hlength := congrArg List.length heq
    simp only [List.length_append, List.length_singleton] at hlength
    omega
  rw [moved_of_ne hd he, move_of_target]

/-- Nothing is left where the subtree was. -/
theorem moved_of_source (h : v.IsTree) (hthere : (v (d ++ [name])).isSome)
    (hfree : v (e ++ [other]) = none) (hout : ¬ d ++ [name] <+: e)
    (hplace : d ++ [name] <+: place) : v.moved now d name e other place = none := by
  have htarget : ¬ e ++ [other] <+: place := by
    intro hp
    rcases List.prefix_or_prefix_of_prefix hplace hp with hpre | hpre
    · rcases List.prefix_concat_iff.1 hpre with heq | hpre
      · rw [heq, hfree] at hthere
        cases hthere
      · exact hout hpre
    · rw [h.none_under hfree hpre] at hthere
      cases hthere
  simp [moved, modify, move_of_source v hplace htarget]

/-- A directory that holds the one place, or the other, has a name less, or more. -/
theorem moved_of_holder (h : v.IsTree) (hthere : (v (d ++ [name])).isSome)
    (hfree : v (e ++ [other]) = none) (hout : ¬ d ++ [name] <+: e)
    (hback : ¬ e ++ [other] <+: d) (hplace : place = d ∨ place = e)
    (hdir : v place = some (.dir names times)) :
    v.moved now d name e other place = some (.dir
      ((if place = d then names.filter (· ≠ name) else names) ++
        if place = e then [other] else []) { times with modified := now }) := by
  have hmove : v.move (d ++ [name]) (e ++ [other]) place = some (.dir names times) := by
    rw [move_of_other v ?_ ?_, hdir]
    · rcases hplace with rfl | rfl
      · exact not_prefix_self_append_singleton place name
      · exact hout
    · rcases hplace with rfl | rfl
      · exact hback
      · exact not_prefix_self_append_singleton place other
  have hname : place = d → name ∈ names := fun heq =>
    (h.mem_names_iff hdir name).2 (heq ▸ hthere)
  have hother : place = e → other ∉ names := by
    rintro rfl
    rw [h.mem_names_iff hdir, hfree]
    exact Bool.false_ne_true
  simp only [moved, modify, hmove]
  by_cases hd : place = d
  · have hdropped : (Node.dir names times).dropName now name =
        .dir (names.filter (· ≠ name)) { times with modified := now } := if_pos (hname hd)
    by_cases he : place = e
    · have hnew : other ∉ names.filter (· ≠ name) := fun hmem =>
        hother he (List.mem_of_mem_filter hmem)
      have hadded : (Node.dir (names.filter (· ≠ name)) { times with modified := now }).addName now
          other = .dir (names.filter (· ≠ name) ++ [other]) { times with modified := now } :=
        if_neg hnew
      rw [if_pos he, if_pos hd, if_pos hd, if_pos he, Option.map_some, Option.map_some, hdropped,
        hadded]
    · rw [if_neg he, if_pos hd, if_pos hd, if_neg he, Option.map_some, hdropped, List.append_nil]
  · have he := hplace.resolve_left hd
    have hadded : (Node.dir names times).addName now other =
        .dir (names ++ [other]) { times with modified := now } := if_neg (hother he)
    rw [if_pos he, if_neg hd, if_neg hd, if_pos he, Option.map_some, hadded]

/-- Every other node is what it was. -/
theorem moved_of_other (hs : ¬ d ++ [name] <+: place) (ht : ¬ e ++ [other] <+: place)
    (hd : place ≠ d) (he : place ≠ e) : v.moved now d name e other place = v place := by
  rw [moved_of_ne hd he, move_of_other v hs ht]

end View

namespace Shows

/-- A move that may be made moves the tree. -/
theorem rename_shows (h : fs.Shows v) (hs : fs.resolve source = .ok s)
    (ht : fs.resolve target = .ok t) (hmovable : Movable v s t node) {d e : List String}
    {name other : String} (hd : s.parts = d ++ [name]) (he : t.parts = e ++ [other]) :
    (fs.rename source target).2.Shows (v.moved fs.clock d name e other) ∧
      OnlyNodes { fs with descriptors := (fs.rename source target).2.descriptors }
        (fs.rename source target).2 := by
  obtain ⟨nodes, table, hnodes, -, hdone⟩ := h.carryOut_eq hmovable
  rw [FileSystem.rename, h.planMove_of_movable hs ht hmovable]
  dsimp only
  rw [hdone, View.moved, ← hd, ← he]
  have hrelinked : ({ fs with nodes := nodes, descriptors := table }.relink s t).Shows _ :=
    hmovable.relink h.tree hnodes hd he
  have hsame := OnlyNodes.relink { fs with nodes := nodes, descriptors := table } s t
  refine ⟨hrelinked, ?_⟩
  dsimp only
  rw [hsame.descriptors]
  exact ⟨hsame.eq⟩

/-- A move that may be made has moved what is at the one path to the other. -/
theorem moved (h : fs.Shows v) (hs : fs.resolve source = .ok s) (ht : fs.resolve target = .ok t)
    (hmovable : Movable v s t node) : Moved fs (fs.rename source target).2 s t := by
  obtain ⟨d, name, hd⟩ := exists_concat hmovable.source_ne
  obtain ⟨e, other, he⟩ := exists_concat hmovable.target_ne
  obtain ⟨hshows, honly⟩ := h.rename_shows hs ht hmovable hd he
  have hthere : (v (d ++ [name])).isSome := by
    rw [← hd, hmovable.there]
    rfl
  have hfree : v (e ++ [other]) = none := he ▸ hmovable.free
  have hout : ¬ d ++ [name] <+: e := by
    have hout := hmovable.not_prefix_dropLast h.tree
    rwa [hd, he, List.dropLast_concat] at hout
  have hback : ¬ e ++ [other] <+: d := by
    intro hp
    rw [h.tree.none_under hfree (hp.trans (List.prefix_append d [name]))] at hthere
    cases hthere
  constructor
  · intro p q rest hp hq
    rw [hshows.table.nodeAt_eq, h.table.nodeAt_eq, hp, hq, hd, he]
    exact View.moved_of_target hback rest
  · intro p hp
    rw [hshows.table.nodeAt_eq]
    exact View.moved_of_source h.tree hthere hfree hout (hd ▸ hp)
  · intro p hp
    have hstruck : s.fileName? = some name := fileName?_eq hd
    have hnoted : t.fileName? = some other := fileName?_eq he
    rw [hd, he, List.dropLast_concat, List.dropLast_concat] at hp
    obtain ⟨dir, hdir, hisDir⟩ : ∃ dir, v p.parts = some dir ∧ dir.isDir = true := by
      rcases hp with hp | hp
      · exact hp ▸ h.tree.dir_above d (List.cons_ne_nil name []) hthere
      · have hparent := hmovable.parent
        rwa [he, List.dropLast_concat, ← hp] at hparent
    cases dir with
    | file => cases hisDir
    | dir names times =>
      refine ⟨names, times, (h.table.nodeAt_eq p).trans hdir, ?_⟩
      rw [hshows.table.nodeAt_eq, relisted, hstruck, hnoted, hd, he, List.dropLast_concat,
        List.dropLast_concat, View.moved_of_holder h.tree hthere hfree hout hback hp hdir]
      simp
  · intro p hsource htarget hp hq
    rw [hd, List.dropLast_concat] at hp
    rw [he, List.dropLast_concat] at hq
    rw [hshows.table.nodeAt_eq, h.table.nodeAt_eq]
    exact View.moved_of_other (hd ▸ hsource) (he ▸ htarget) hp hq
  · exact honly.clock
  · exact honly.cwd
  · exact honly.stdout
  · exact honly.stderr

end Shows

/-! ## Moving back -/

/-- After a move and the move back everything is what it was, but that the two directories which
    hold the paths may list their names in another order and were modified by the move back. -/
structure Restored (fs fs' : FileSystem) (later : Time) (s t : Path) : Prop where
  holders : ∀ d : Path, d.parts = s.parts.dropLast ∨ d.parts = t.parts.dropLast →
    ∃ names names' times, fs.nodeAt d = some (.dir names times) ∧ names'.Perm names ∧
      fs'.nodeAt d = some (.dir names' { times with modified := later })
  others : ∀ p : Path, p.parts ≠ s.parts.dropLast → p.parts ≠ t.parts.dropLast →
    fs'.nodeAt p = fs.nodeAt p
  cwd : fs'.cwd = fs.cwd
  stdout : fs'.stdout = fs.stdout
  stderr : fs'.stderr = fs.stderr

theorem filter_concat_of_not_mem {names : List String} {name : String} (h : name ∉ names) :
    (names ++ [name]).filter (some · ≠ some name) = names := by
  rw [List.filter_append, List.filter_eq_self.2, List.filter_eq_nil_iff.2, List.append_nil]
  · simp
  · intro other hother
    simpa using fun heq : other = name => h (heq ▸ hother)

theorem perm_filter_concat {names : List String} {name : String} (hnames : names.Nodup)
    (h : name ∈ names) : (names.filter (some · ≠ some name) ++ [name]).Perm names := by
  have hkept : names.filter (some · ≠ some name) = names.erase name := by
    rw [hnames.erase_eq_filter]
    exact List.filter_congr fun other _ => by rw [Bool.eq_iff_iff]; simp
  rw [hkept]
  exact (List.perm_append_singleton name _).trans (List.perm_cons_erase h).symm

/-- Striking one name and adding another, and then the other way round, leaves the names. -/
theorem perm_relisted {d : Path} {names : List String} {name other : String}
    (hs : s.fileName? = some name) (ht : t.fileName? = some other) (hnames : names.Nodup)
    (hname : d.parts = s.parts.dropLast → name ∈ names)
    (hother : d.parts = t.parts.dropLast → other ∉ names) :
    (relisted t s d (relisted s t d names)).Perm names := by
  simp only [relisted, hs, ht, Option.toList_some]
  by_cases hd : d.parts = s.parts.dropLast <;> by_cases he : d.parts = t.parts.dropLast
  · have hfree : other ∉ names.filter (some · ≠ some name) := fun hmem =>
      hother he (List.mem_of_mem_filter hmem)
    rw [if_pos he, if_pos hd, if_pos he, if_pos hd, filter_concat_of_not_mem hfree]
    exact perm_filter_concat hnames (hname hd)
  · rw [if_neg he, if_pos hd, if_neg he, if_pos hd, List.append_nil]
    exact perm_filter_concat hnames (hname hd)
  · rw [if_pos he, if_neg hd, if_pos he, if_neg hd, List.append_nil,
      filter_concat_of_not_mem (hother he)]
  · rw [if_neg he, if_neg hd, if_neg he, if_neg hd, List.append_nil, List.append_nil]

namespace Shows

/-- What was moved may be moved back. -/
theorem movable_back (h : fs.Shows v) (hmovable : Movable v s t node) (hmoved : Moved fs fs' s t)
    {v' : View} (h' : fs'.Shows v') : Movable v' t s node where
  there := by
    rw [← h'.table.nodeAt_eq, hmoved.arrived s t [] (List.append_nil _).symm
      (List.append_nil _).symm, h.table.nodeAt_eq, hmovable.there]
  source_ne := hmovable.target_ne
  target_ne := hmovable.source_ne
  free := by rw [← h'.table.nodeAt_eq, hmoved.left s List.prefix_rfl]
  parent := by
    obtain ⟨d, name, hd⟩ := exists_concat hmovable.source_ne
    obtain ⟨parent, -, rfl⟩ := parent?_eq hd
    rw [hd, List.dropLast_concat]
    obtain ⟨names, times, -, hdir⟩ := hmoved.holders parent
      (.inl (by rw [hd, List.dropLast_concat]))
    rw [h'.table.nodeAt_eq] at hdir
    exact ⟨_, hdir, rfl⟩
  outside _ hp := by
    have hthere := hmovable.there
    rw [h.tree.none_under hmovable.free hp] at hthere
    cases hthere

/-- A move and the move back restore the tree. -/
theorem restored {fs₁ fs₂ : FileSystem} {later : Time} (h : fs.Shows v)
    (hmovable : Movable v s t node) (hmoved : Moved fs fs₁ s t)
    (hback : Moved { fs₁ with clock := later } fs₂ t s) : Restored fs fs₂ later s t := by
  obtain ⟨d, name, hd⟩ := exists_concat hmovable.source_ne
  obtain ⟨e, other, he⟩ := exists_concat hmovable.target_ne
  constructor
  · intro p hp
    obtain ⟨names, times, hnode, hnode₁⟩ := hmoved.holders p hp
    obtain ⟨names', times', hnode', hnode₂⟩ := hback.holders p hp.symm
    obtain ⟨rfl, rfl⟩ := Node.dir.inj (Option.some.inj (hnode₁.symm.trans hnode'))
    refine ⟨names, _, times, hnode, ?_, hnode₂⟩
    rw [h.table.nodeAt_eq] at hnode
    refine perm_relisted (fileName?_eq hd) (fileName?_eq he) ?_ ?_ ?_
    · have hnodup := h.tree.unrepeated p.parts
      rwa [View.names_of_eq_some hnode] at hnodup
    · intro hp
      rw [h.tree.mem_names_iff hnode, hp, hd, List.dropLast_concat, ← hd, hmovable.there]
      rfl
    · intro hp
      rw [h.tree.mem_names_iff hnode, hp, he, List.dropLast_concat, ← he, hmovable.free]
      exact Bool.false_ne_true
  · intro p hholds hwill
    by_cases hs : s.parts <+: p.parts
    · -- what was moved went to the target and came back from there
      obtain ⟨rest, hrest⟩ := hs
      obtain ⟨q, hq⟩ := exists_append t fun part hpart =>
        p.proper part (hrest ▸ List.mem_append_right _ hpart)
      exact (hback.arrived q p rest hq hrest.symm).trans (hmoved.arrived p q rest hrest.symm hq)
    · by_cases ht : t.parts <+: p.parts
      · rw [hback.left p ht, h.table.nodeAt_eq, h.tree.none_under hmovable.free ht]
      · exact (hback.others p ht hs hwill hholds).trans (hmoved.others p hs ht hholds hwill)
  · exact hback.cwd.trans hmoved.cwd
  · exact hback.stdout.trans hmoved.stdout
  · exact hback.stderr.trans hmoved.stderr

end Shows

/-- Between two paths a move is granted exactly if something is at the one, nothing at the other,
    neither is the root, and the other is to be in a directory and not inside the one. Then exactly
    the one subtree has moved, and moving it back, at any later time, restores the tree. -/
theorem Reachable.rename_subtree (h : Reachable fs) (hs : fs.resolve source = .ok s)
    (ht : fs.resolve target = .ok t) (hne : s.toString ≠ t.toString) :
    ((fs.rename source target).1 = .ok () ↔ Allowed fs s t) ∧
      (Allowed fs s t → Moved fs (fs.rename source target).2 s t ∧ ∀ later,
        let back := { (fs.rename source target).2 with clock := later }.rename target source
        back.1 = .ok () ∧ Restored fs back.2 later s t) := by
  obtain ⟨v, hv⟩ := h.shows
  rw [ne_eq, Path.toString_inj] at hne
  refine ⟨(hv.rename_ok_iff hs ht hne).trans hv.allowed_iff.symm, fun hallowed => ?_⟩
  obtain ⟨node, hmovable⟩ := hv.allowed_iff.1 hallowed
  have hmoved := hv.moved hs ht hmovable
  refine ⟨hmoved, fun later => ?_⟩
  obtain ⟨d, name, hd⟩ := exists_concat hmovable.source_ne
  obtain ⟨e, other, he⟩ := exists_concat hmovable.target_ne
  have hshows := (hv.rename_shows hs ht hmovable hd he).1
  have hlater : { (fs.rename source target).2 with clock := later }.Shows _ := hshows.of_nodes rfl
  have hresolve : ∀ text, { (fs.rename source target).2 with clock := later }.resolve text =
      fs.resolve text := fun text => by rw [FileSystem.resolve, FileSystem.resolve, hmoved.cwd]
  have hmovable' := hv.movable_back hmovable hmoved hshows
  have hs' := (hresolve source).trans hs
  have ht' := (hresolve target).trans ht
  have hback := hlater.moved ht' hs' hmovable'
  exact ⟨(hlater.rename_ok_iff ht' hs' (Ne.symm hne)).2 ⟨node, hmovable'⟩,
    hv.restored hmovable hmoved hback⟩

/-- A directory with a file in another directory, a file whose name begins as its own, and a
    directory beside them. -/
def crowded : FileSystem :=
  (performAll none (empty ⟨0, 0⟩) () [.writeFile "/a/d/f" "text".toUTF8,
    .writeFile "/ab" "other".toUTF8, .makeDir "/c" false]).2.1

/-- The directory moves into the one beside it, and back under its old name. -/
theorem rename_subtree_crowded :
    ∃ s t, s.parts = ["a"] ∧ t.parts = ["c", "b"] ∧
      (crowded.rename "a" "/c/./b").1 = .ok () ∧
      Moved crowded (crowded.rename "a" "/c/./b").2 s t ∧
      Restored crowded ({ (crowded.rename "a" "/c/./b").2 with clock := ⟨7, 0⟩ }.rename
        "/c/./b" "a").2 ⟨7, 0⟩ s t := by
  have hreachable : Reachable crowded := .performAll none _ () (.new ⟨0, 0⟩)
  have hs : crowded.resolve "a" = .ok ⟨["a"], false, by decide, by decide⟩ := by decide +kernel
  have ht : crowded.resolve "/c/./b" = .ok ⟨["c", "b"], false, by decide, by decide⟩ := by
    decide +kernel
  obtain ⟨hgranted, hmoves⟩ := Reachable.rename_subtree hreachable hs ht (by decide)
  have hok : (crowded.rename "a" "/c/./b").1 = .ok () := rfl
  obtain ⟨hmoved, hback⟩ := hmoves (hgranted.1 hok)
  exact ⟨_, _, rfl, rfl, hok, hmoved, (hback ⟨7, 0⟩).2⟩

end Workbench.FileSystem
