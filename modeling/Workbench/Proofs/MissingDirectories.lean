import Workbench.Proofs.DescriptorSteps

set_option autoImplicit false

/-! # The directories on the way to a path

A directory can be made with those above it unless a file is in the way, and a file can be written
unless a directory is there or a file is in the way. What is made is a chain: each directory that
was missing is new and holds the next one alone, and the deepest one that was there gets the first
of them as its last name. Once the chain is complete, making it again does nothing. A file that is
written is put at the end of such a chain, under a name that is added last unless the file was there
before; writing to a file that is there changes that file alone. -/

namespace Workbench.FileSystem

variable {v : View} {fs fs' : FileSystem} {p : Path} {text : String} {data : ByteArray}

/-- No file stands above a path. -/
def Clear (fs : FileSystem) (p : Path) : Prop := ∀ a ∈ p.ancestors, fs.isFile a = false

/-- Every directory on the way down to a path is there, and what is new is the chain of those that
    were missing. -/
structure WayMade (fs fs' : FileSystem) (p : Path) : Prop where
  directories : ∀ n ≤ p.parts.length, fs'.isDir (p.above n) = true
  listed : ∀ (n : Nat) (hn : n < p.parts.length),
    ∃ names times, fs'.nodeAt (p.above n) = some (.dir names times) ∧ p.parts[n] ∈ names
  /-- A directory that was missing holds the next one alone. -/
  made : ∀ n ≤ p.parts.length, fs.nodeAt (p.above n) = none →
    fs'.nodeAt (p.above n) = some (.dir p.parts[n]?.toList (.stamp fs.clock))
  /-- The first that was missing is the last name in the directory above it. -/
  attached : ∀ (n : Nat) (hn : n < p.parts.length) (names : List String) (times : Times),
    fs.nodeAt (p.above n) = some (.dir names times) → fs.nodeAt (p.above (n + 1)) = none →
    fs'.nodeAt (p.above n) =
      some (.dir (names ++ [p.parts[n]]) { times with modified := fs.clock })
  /-- A directory under which the next one was there already is not touched. -/
  kept : ∀ n ≤ p.parts.length, (fs.nodeAt (p.above n)).isSome →
    (n < p.parts.length → (fs.nodeAt (p.above (n + 1))).isSome) →
    fs'.nodeAt (p.above n) = fs.nodeAt (p.above n)
  aside : ∀ q : Path, ¬ q.parts <+: p.parts → fs'.nodeAt q = fs.nodeAt q
  rest : OnlyNodes fs fs'

/-- A file has been written at a path in the directory `d`; `made` is what there is once that
    directory has been made. -/
structure FileWritten (fs made fs' : FileSystem) (d p : Path) (data : ByteArray) : Prop where
  bytes : fs'.nodeAt p = some (.file data (.stamp fs.clock))
  /-- Above the directory that holds the path nothing is done but to make it. -/
  above : ∀ n, n + 1 < p.parts.length → fs'.nodeAt (p.above n) = made.nodeAt (p.above n)
  /-- A new name is the last of that directory. -/
  added : fs.nodeAt p = none → ∃ names times, made.nodeAt d = some (.dir names times) ∧
    fs'.nodeAt d = some (.dir (names ++ p.fileName?.toList) { times with modified := fs.clock })
  /-- Where a file was, nothing else changes. -/
  replaced : (fs.nodeAt p).isSome → ∀ q : Path, q.parts ≠ p.parts → fs'.nodeAt q = fs.nodeAt q
  aside : ∀ q : Path, ¬ q.parts <+: p.parts → fs'.nodeAt q = fs.nodeAt q
  rest : OnlyNodes fs fs'

/-! ## The trail, directory by directory -/

namespace View

variable {now : Time} {parts : List String} {names : List String} {times : Times}

/-- What is `n` levels down the trail. -/
theorem trail_take (v : View) (now : Time) {parts : List String} {n : Nat} (hn : n ≤ parts.length) :
    v.trail now parts (parts.take n) =
      some (parts[n]?.elim ((v (parts.take n)).getD (.emptyDir now))
        (((v (parts.take n)).getD (.emptyDir now)).addName now)) := by
  rw [trail, if_pos (List.take_prefix n parts), List.head?_drop, List.length_take,
    Nat.min_eq_left hn]

theorem trail_take_of_none {n : Nat} (hn : n ≤ parts.length) (hnone : v (parts.take n) = none) :
    v.trail now parts (parts.take n) = some (.dir parts[n]?.toList (.stamp now)) := by
  rw [trail_take v now hn, hnone]
  cases parts[n]? <;> rfl

theorem trail_take_of_next_none (h : v.IsTree) {n : Nat} (hn : n < parts.length)
    (hdir : v (parts.take n) = some (.dir names times)) (hnext : v (parts.take (n + 1)) = none) :
    v.trail now parts (parts.take n) =
      some (.dir (names ++ [parts[n]]) { times with modified := now }) := by
  have hnew : parts[n] ∉ names := by
    rw [List.take_succ_eq_append_getElem hn] at hnext
    rw [h.mem_names_iff hdir, hnext]
    exact Bool.false_ne_true
  rw [trail_take v now hn.le, hdir, List.getElem?_eq_getElem hn]
  exact congrArg some (if_neg hnew)

theorem trail_take_of_next (h : v.IsTree) {n : Nat} (hn : n ≤ parts.length)
    (hsome : (v (parts.take n)).isSome)
    (hnext : n < parts.length → (v (parts.take (n + 1))).isSome) :
    v.trail now parts (parts.take n) = v (parts.take n) := by
  obtain ⟨node, hnode⟩ := Option.isSome_iff_exists.1 hsome
  rw [trail_take v now hn, hnode, Option.getD_some]
  rcases hn.lt_or_eq with hlt | rfl
  · have hlisted := hnext hlt
    rw [List.take_succ_eq_append_getElem hlt, h.listed, names_of_eq_some hnode] at hlisted
    rw [List.getElem?_eq_getElem hlt, Option.elim_some, Node.addName_of_mem now hlisted]
  · rw [List.getElem?_eq_none le_rfl, Option.elim_none]

end View

/-! ## What may be made -/

theorem mem_ancestors_iff (p a : Path) : a ∈ p.ancestors ↔ ∃ n < p.parts.length, p.above n = a := by
  simp only [Path.ancestors, List.mem_map, List.mem_range]

namespace Shows

/-- No file is where nothing or a directory is. -/
theorem isFile_eq_false_iff (h : fs.Shows v) (p : Path) :
    fs.isFile p = false ↔ ∀ node, v p.parts = some node → node.isDir = true := by
  rw [h.table.isFile_eq]
  cases v p.parts with
  | none => simp
  | some node => cases node <;> simp [Node.isFile, Node.isDir]

theorem isDir_eq_false_iff (h : fs.Shows v) (p : Path) :
    fs.isDir p = false ↔ ∀ node, v p.parts = some node → node.isDir = false := by
  rw [h.table.isDir_eq]
  cases v p.parts <;> simp

/-- Where no directory is, is not the root. -/
theorem parts_ne_nil_of_isDir (h : fs.Shows v) (hdir : fs.isDir p = false) : p.parts ≠ [] := by
  intro hp
  obtain ⟨root, hroot, hisDir⟩ := h.table.root
  rw [(h.isDir_eq_false_iff p).1 hdir root (hp ▸ hroot)] at hisDir
  cases hisDir

/-- The way to the directory that holds a path is passable exactly if no file is above the path. -/
theorem passable_dropLast_iff (h : fs.Shows v) (hp : p.parts ≠ []) :
    v.Passable p.parts.dropLast ↔ fs.Clear p := by
  have hlength := List.length_pos_of_ne_nil hp
  constructor
  · intro hpass a ha
    obtain ⟨n, hn, rfl⟩ := (mem_ancestors_iff p a).1 ha
    rw [h.isFile_eq_false_iff]
    refine hpass _ ?_
    rw [List.dropLast_eq_take]
    exact List.take_prefix_take_left (by omega)
  · intro hclear place hplace
    rw [List.dropLast_eq_take] at hplace
    have hshort := hplace.length_le
    rw [List.length_take] at hshort
    have hplace' : place = (p.above place.length).parts :=
      List.prefix_iff_eq_take.1 (hplace.trans (List.take_prefix _ _))
    rw [hplace', ← h.isFile_eq_false_iff]
    exact hclear _ ((mem_ancestors_iff p _).2 ⟨_, by omega, rfl⟩)

/-- The way to a path is passable exactly if no file is there or above. -/
theorem passable_iff (h : fs.Shows v) (p : Path) :
    v.Passable p.parts ↔ fs.isFile p = false ∧ fs.Clear p := by
  constructor
  · intro hpass
    refine ⟨(h.isFile_eq_false_iff p).2 (hpass _ List.prefix_rfl), fun a ha => ?_⟩
    obtain ⟨n, -, rfl⟩ := (mem_ancestors_iff p a).1 ha
    exact (h.isFile_eq_false_iff _).2 (hpass _ (List.take_prefix n p.parts))
  · rintro ⟨hself, hclear⟩ place hplace
    rcases hplace.length_le.lt_or_eq with hlt | heq
    · have habove := hclear _ ((mem_ancestors_iff p _).2 ⟨place.length, hlt, rfl⟩)
      rw [h.isFile_eq_false_iff] at habove
      rw [List.prefix_iff_eq_take.1 hplace]
      exact habove
    · rw [hplace.eq_of_length heq]
      exact (h.isFile_eq_false_iff p).1 hself

/-! ## Making the way -/

/-- The way is made exactly if it is passable. -/
theorem makeDirs_ok_iff (h : fs.Shows v) (p : Path) :
    (fs.makeDirs p).1 = .ok () ↔ fs.isFile p = false ∧ fs.Clear p := by
  rw [← h.passable_iff]
  constructor
  · intro hok
    rcases h.makeDirs p with ⟨hpass, -⟩ | ⟨e, hrefused⟩
    · exact hpass
    · rw [hrefused] at hok
      cases hok
  · intro hpass
    rw [← List.take_length (l := p.parts)] at hpass
    obtain ⟨nodes, hmade, -⟩ := h.makeAbove p le_rfl hpass
    rw [makeDirs_eq, hmade]

/-- Making the way, if it is passable, leaves the trail. -/
theorem makeDirs_shows (h : fs.Shows v) (hpass : v.Passable p.parts) :
    (fs.makeDirs p).2.Shows (v.trail fs.clock p.parts) ∧ OnlyNodes fs (fs.makeDirs p).2 := by
  rw [← List.take_length (l := p.parts)] at hpass
  obtain ⟨nodes, hmade, hshows⟩ := h.makeAbove p le_rfl hpass
  rw [makeDirs_eq, hmade]
  rw [List.take_length] at hshows
  exact ⟨hshows, ⟨rfl⟩⟩

/-- The trail is the way. -/
theorem wayMade (h : fs.Shows v) (hpass : v.Passable p.parts)
    (h' : fs'.Shows (v.trail fs.clock p.parts)) (honly : OnlyNodes fs fs') :
    WayMade fs fs' p := by
  have hdir : ∀ n, ∃ node, v.trail fs.clock p.parts (p.parts.take n) = some node ∧
      node.isDir = true := by
    intro n
    have hprefix := List.take_prefix n p.parts
    have hsome : (v.trail fs.clock p.parts (p.parts.take n)).isSome := by
      rw [View.trail, if_pos hprefix]
      rfl
    obtain ⟨node, hnode⟩ := Option.isSome_iff_exists.1 hsome
    exact ⟨node, hnode, View.isDir_of_trail fs.clock hprefix (hpass _ hprefix) hnode⟩
  have habove : ∀ n, (p.above n).parts = p.parts.take n := fun _ => rfl
  constructor
  · intro n _
    obtain ⟨node, hnode, hisDir⟩ := hdir n
    rw [h'.table.isDir_eq, habove, hnode, Option.any_some, hisDir]
  · intro n hn
    obtain ⟨node, hnode, hisDir⟩ := hdir n
    obtain ⟨next, hnext, -⟩ := hdir (n + 1)
    cases node with
    | file => cases hisDir
    | dir names times =>
      refine ⟨names, times, (h'.table.nodeAt_eq _).trans hnode, ?_⟩
      rw [h'.tree.mem_names_iff hnode, ← List.take_succ_eq_append_getElem hn, hnext]
      rfl
  · intro n hn hnone
    rw [h.table.nodeAt_eq] at hnone
    rw [h'.table.nodeAt_eq]
    exact View.trail_take_of_none hn hnone
  · intro n hn names times hnode hnone
    rw [h.table.nodeAt_eq] at hnode hnone
    rw [h'.table.nodeAt_eq]
    exact View.trail_take_of_next_none h.tree hn hnode hnone
  · intro n hn hsome hnext
    rw [h.table.nodeAt_eq] at hsome
    rw [h.table.nodeAt_eq] at hnext
    rw [h'.table.nodeAt_eq, h.table.nodeAt_eq]
    exact View.trail_take_of_next h.tree hn hsome hnext
  · intro q hq
    rw [h'.table.nodeAt_eq, h.table.nodeAt_eq, View.trail_aside v _ hq]
  · exact honly

end Shows

/-- A way that is complete is passed over. -/
theorem makeDirs_of_isDir (h : ∀ n ≤ p.parts.length, fs.isDir (p.above n) = true) :
    fs.makeDirs p = (.ok (), fs) := by
  rw [makeDirs_eq, ← List.append_nil (List.map _ _)]
  refine makeEach_append_of_isDir (fun a ha => ?_) []
  obtain ⟨n, hn, rfl⟩ := List.mem_map.1 ha
  exact h n (Nat.le_of_lt_succ (List.mem_range.1 hn))

namespace Shows

/-! ## Writing at the end of the way -/

/-- A file is written exactly if no directory is at the path and no file above it. -/
theorem placeFile_ok_iff (h : fs.Shows v) (hdir : fs.isDir p = false) (data : ByteArray) :
    (fs.placeFile p data).1 = .ok () ↔ fs.Clear p := by
  have hold := (h.isDir_eq_false_iff p).1 hdir
  have hroot : p.parts ≠ [] := h.parts_ne_nil_of_isDir hdir
  rw [← h.passable_dropLast_iff hroot]
  refine ⟨fun hok => ?_, fun hpass => h.placeFile_ok hroot hpass data⟩
  rcases h.placeFile hold data with ⟨hpass, -⟩ | ⟨e, hrefused⟩
  · exact hpass
  · rw [hrefused] at hok
    cases hok

/-- What is left where a file is written. -/
theorem placeFile_shows (h : fs.Shows v) (hdir : fs.isDir p = false) (hclear : fs.Clear p)
    (data : ByteArray) :
    (fs.placeFile p data).2.Shows
        ((v.trail fs.clock p.parts).set p.parts (some (.file data (.stamp fs.clock)))) ∧
      OnlyNodes fs (fs.placeFile p data).2 := by
  have hok := (h.placeFile_ok_iff hdir data).2 hclear
  rcases h.placeFile ((h.isDir_eq_false_iff p).1 hdir) data with
    ⟨-, nodes, hplaced, hshows⟩ | ⟨e, hrefused⟩
  · rw [hplaced]
    exact ⟨hshows, ⟨rfl⟩⟩
  · rw [hrefused] at hok
    cases hok

/-- A file at the end of the trail has been written in a directory at the end of its own. -/
theorem fileWritten (h : fs.Shows v) {made : FileSystem} {d : Path} {name : String}
    (hd : p.parts = d.parts ++ [name]) (hmade : made.Shows (v.trail fs.clock d.parts))
    (hpass : v.Passable d.parts)
    (h' : fs'.Shows ((v.trail fs.clock p.parts).set p.parts (some (.file data (.stamp fs.clock)))))
    (honly : OnlyNodes fs fs') : FileWritten fs made fs' d p data := by
  have hother : ∀ q : Path, q.parts ≠ p.parts →
      fs'.nodeAt q = v.trail fs.clock p.parts q.parts := fun q hq =>
    (h'.table.nodeAt_eq q).trans (if_neg hq)
  constructor
  · rw [h'.table.nodeAt_eq]
    exact if_pos rfl
  · intro n hn
    have hlength := congrArg List.length hd
    rw [List.length_append, List.length_singleton] at hlength
    have habove : (p.above n).parts.length = n := by
      rw [Path.above, List.length_take]
      omega
    have hself : (p.above n).parts ≠ p.parts := fun heq => by
      rw [heq] at habove
      omega
    have hparent : (p.above n).parts ≠ d.parts := fun heq => by
      rw [heq] at habove
      omega
    rw [hother _ hself, hmade.table.nodeAt_eq, hd,
      View.trail_concat_of_ne v _ name hparent (hd ▸ hself)]
  · intro hnone
    rw [h.table.nodeAt_eq] at hnone
    have hself : d.parts ≠ p.parts := by
      rw [hd]
      simp
    have hisDir := View.isDir_getD_emptyDir fs.clock (hpass _ List.prefix_rfl)
    cases hnode : (v d.parts).getD (.emptyDir fs.clock) with
    | file =>
      rw [hnode] at hisDir
      cases hisDir
    | dir names times =>
      have hfound := (View.trail_self v fs.clock d.parts).trans (congrArg some hnode)
      have hnew : name ∉ names := by
        rw [hmade.tree.mem_names_iff hfound, ← hd,
          View.trail_aside v _ (hd ▸ View.not_prefix_self_append_singleton _ _), hnone]
        exact Bool.false_ne_true
      refine ⟨names, times, (hmade.table.nodeAt_eq d).trans hfound, ?_⟩
      have hnamed : p.fileName? = some name := fileName?_eq hd
      rw [hother d hself, hnamed, View.trail, hd, if_pos (List.prefix_append _ _),
        View.head?_drop_concat List.prefix_rfl, List.drop_length, hnode]
      exact congrArg some (if_neg hnew)
  · intro hsome q hq
    rw [h.table.nodeAt_eq] at hsome
    rw [hother q hq, h.tree.trail_of_isSome _ hsome, h.table.nodeAt_eq]
  · intro q hq
    rw [hother q fun heq => hq (heq ▸ List.prefix_rfl), View.trail_aside v _ hq,
      h.table.nodeAt_eq]
  · exact honly

end Shows

/-! ## By name -/

theorem makeDir_of_resolve (hp : fs.resolve text = .ok p) :
    fs.makeDir text true = fs.makeDirs p := by
  rw [makeDir, hp]
  rfl

/-- The written form of a path will do for the path. -/
theorem makeDir_toString (fs : FileSystem) (p : Path) :
    fs.makeDir p.toString true = fs.makeDirs p := by
  obtain ⟨q, hq, hparts⟩ := resolve_toString fs p
  have habove : q.above = p.above := by
    funext n
    simp only [Path.above, hparts]
  rw [makeDir_of_resolve hq, makeDirs_eq, makeDirs_eq, hparts, habove]

theorem Shows.writeFile_ok_iff (h : fs.Shows v) (hp : fs.resolve text = .ok p)
    (data : ByteArray) :
    (fs.writeFile text data).1 = .ok () ↔ fs.isDir p = false ∧ fs.Clear p := by
  rw [writeFile, hp]
  dsimp only
  cases hdir : fs.isDir p with
  | true => simp
  | false => simp [h.placeFile_ok_iff hdir data]

/-- What is granted has written the file in its directory. -/
theorem Shows.writeFile_written (h : fs.Shows v) (hp : fs.resolve text = .ok p)
    (hdir : fs.isDir p = false) (hclear : fs.Clear p) (data : ByteArray) :
    ∃ d, p.parent? = some d ∧ (fs.makeDir d.toString true).1 = .ok () ∧
      FileWritten fs (fs.makeDir d.toString true).2 (fs.writeFile text data).2 d p data := by
  have hroot := h.parts_ne_nil_of_isDir hdir
  obtain ⟨place, name, hparts⟩ := exists_concat hroot
  obtain ⟨d, hparent, rfl⟩ := parent?_eq hparts
  have hpass := (h.passable_dropLast_iff hroot).2 hclear
  rw [hparts, List.dropLast_concat] at hpass
  have hplaced : fs.writeFile text data = fs.placeFile p data := by
    rw [writeFile, hp]
    exact if_neg (by rw [hdir]; exact Bool.false_ne_true)
  obtain ⟨hmade, -⟩ := h.makeDirs_shows hpass
  obtain ⟨hshows, honly⟩ := h.placeFile_shows hdir hclear data
  refine ⟨d, hparent, ?_⟩
  rw [makeDir_toString, hplaced]
  exact ⟨(h.makeDirs_ok_iff d).2 ((h.passable_iff d).1 hpass),
    h.fileWritten hparts hmade hpass hshows honly⟩

/-- A directory can be made with those above it exactly if no file is at the path or above it. What
    was missing is then there, nothing else has changed, and making it again changes nothing. A file
    can be written exactly if no directory is at the path and no file above it. It then holds the
    bytes, above it is what there is once its directory has been made, but for a new name, which is
    added last; and where a file was there before, nothing else has changed. -/
theorem Reachable.makes_missing (h : Reachable fs) (hp : fs.resolve text = .ok p) :
    ((fs.makeDir text true).1 = .ok () ↔ fs.isFile p = false ∧ fs.Clear p) ∧
      ((fs.makeDir text true).1 = .ok () → WayMade fs (fs.makeDir text true).2 p ∧ ∀ later,
        let made := { (fs.makeDir text true).2 with clock := later }
        made.makeDir text true = (.ok (), made)) ∧
      ∀ data, ((fs.writeFile text data).1 = .ok () ↔ fs.isDir p = false ∧ fs.Clear p) ∧
        ((fs.writeFile text data).1 = .ok () →
          ∃ d, p.parent? = some d ∧ (fs.makeDir d.toString true).1 = .ok () ∧
            FileWritten fs (fs.makeDir d.toString true).2 (fs.writeFile text data).2 d p data) := by
  obtain ⟨v, hv⟩ := h.shows
  rw [makeDir_of_resolve hp]
  refine ⟨hv.makeDirs_ok_iff p, fun hok => ?_,
    fun data => ⟨hv.writeFile_ok_iff hp data, fun hok => ?_⟩⟩
  · have hpass := (hv.passable_iff p).2 ((hv.makeDirs_ok_iff p).1 hok)
    obtain ⟨hshows, honly⟩ := hv.makeDirs_shows hpass
    have hmade := hv.wayMade hpass hshows honly
    refine ⟨hmade, fun later => ?_⟩
    have hp' : { (fs.makeDirs p).2 with clock := later }.resolve text = .ok p :=
      (honly.resolve text).trans hp
    exact (makeDir_of_resolve hp').trans (makeDirs_of_isDir hmade.directories)
  · obtain ⟨hdir, hclear⟩ := (hv.writeFile_ok_iff hp data).1 hok
    exact hv.writeFile_written hp hdir hclear data

/-- Beside a file, a directory is made two levels further down than any that is there, and a file is
    written there. -/
theorem makes_missing_beside :
    let fs := (performAll none (empty ⟨0, 0⟩) () [.writeFile "/a/f" "old".toUTF8]).2.1
    ∃ p, p.parts = ["a", "b", "c"] ∧ WayMade fs (fs.makeDir "/a//b/c/" true).2 p ∧
      ∃ d, p.parent? = some d ∧ FileWritten fs (fs.makeDir d.toString true).2
        (fs.writeFile "/a//b/c/" "new".toUTF8).2 d p "new".toUTF8 := by
  intro fs
  have hreachable : Reachable fs := .performAll none _ () (.new ⟨0, 0⟩)
  have hp : fs.resolve "/a//b/c/" = .ok ⟨["a", "b", "c"], true, by decide, by decide⟩ := by
    decide +kernel
  obtain ⟨-, hmade, hwrite⟩ := Reachable.makes_missing hreachable hp
  obtain ⟨d, hd, -, hwritten⟩ := (hwrite "new".toUTF8).2 rfl
  exact ⟨_, rfl, (hmade rfl).1, d, hd, hwritten⟩

/-- The directory that holds a new file is not as making it leaves it: it lists the file. -/
theorem written_name_is_listed :
    ¬ ∀ (fs : FileSystem) (text : String) (data : ByteArray) (p d a : Path), Reachable fs →
      fs.resolve text = .ok p → p.parent? = some d → (fs.writeFile text data).1 = .ok () →
      a ∈ p.ancestors →
      (fs.writeFile text data).2.nodeAt a = (fs.makeDir d.toString true).2.nodeAt a := by
  intro hclaim
  have hp : (empty ⟨0, 0⟩).resolve "/f" = .ok ⟨["f"], false, by decide, by decide⟩ := by
    decide +kernel
  have hsame := hclaim (empty ⟨0, 0⟩) "/f" .empty _ .root .root (.new ⟨0, 0⟩) hp rfl rfl
    (List.mem_singleton.2 rfl)
  have hwritten : ((empty ⟨0, 0⟩).writeFile "/f" .empty).2.nodeAt .root =
      some (.dir ["f"] (.stamp ⟨0, 0⟩)) := rfl
  have hmade : ((empty ⟨0, 0⟩).makeDir Path.root.toString true).2.nodeAt .root =
      some (.dir [] (.stamp ⟨0, 0⟩)) := rfl
  rw [hwritten, hmade] at hsame
  cases hsame

end Workbench.FileSystem
